import Firmware.Factory.Region

/-!
# Replacing keys in a binary

A key is found by its bytes, which must occur once.  A signing key is replaced by one of the same
length.  A key-encryption key may be replaced by a shorter one: the 32-bit length field before it
is set to the new length and the rest of its slot to zero.

Both replacements work on the bytes where they stand.  What an edit has written is not taken back
when it fails later on, so all that can fail has to come before the first write.
-/

namespace Firmware.Factory

/-! ## Edits in place -/

/-- An edit of a binary in place.  If it fails, the bytes that it has written by then stay. -/
abbrev Edit := ExceptT Error (StateM Bytes)

namespace Edit

/-- Writes over the bytes from an offset on. -/
def write (offset : Nat) (patch : Bytes) : Edit Unit :=
  modify fun binary => Bytes.overwrite binary offset patch

/-- The binary that an edit makes of another one, if it succeeds. -/
def result (edit : Edit Unit) (binary : Bytes) : Except Error Bytes :=
  match edit binary with
  | (.ok (), edited) => .ok edited
  | (.error e, _) => .error e

end Edit

/-! ## Finding a key -/

/-- The offsets at which a pattern occurs, without those inside an earlier occurrence.  `offset` is
that of the remaining bytes, and the next `skip` of them belong to an occurrence. -/
def occurrencesFrom (pattern : Bytes) (offset skip : Nat) : Bytes → List Nat
  | [] => []
  | b :: bs =>
    match skip with
    | skip + 1 => occurrencesFrom pattern (offset + 1) skip bs
    | 0 =>
      if pattern.isPrefixOf (b :: bs) then
        offset :: occurrencesFrom pattern (offset + 1) (pattern.length - 1) bs
      else occurrencesFrom pattern (offset + 1) 0 bs

/-- The offset of the only occurrence of a pattern. -/
def findUnique (binary pattern : Bytes) : Except Error Nat :=
  if pattern.isEmpty then .error .emptyPattern
  else
    match occurrencesFrom pattern 0 0 binary with
    | [offset] => .ok offset
    | found => .error (.patternCount found.length)

/-- Finds the only occurrence of a pattern in the binary. -/
def Edit.find (pattern : Bytes) : Edit Nat := do findUnique (← get) pattern

/-! ## Signing keys -/

/-- Puts one signing key in the place of another. -/
def Edit.replaceSigningKey (old new : Bytes) : Edit Unit :=
  if old.length ≠ new.length then throw (.replacementLength old.length new.length)
  else do
    let offset ← Edit.find old
    Edit.write offset new

/-- The binary with one signing key in the place of another. -/
def replaceSigningKey (binary old new : Bytes) : Except Error Bytes :=
  (Edit.replaceSigningKey old new).result binary

/-! ## Key-encryption keys -/

/-- The size of the length field before a key-encryption key. -/
def lengthFieldSize : Nat := 4

/-- Changes the length field before `offset` from `old` to `new`. -/
def Edit.updateLengthField (offset old new : Nat) : Edit Unit :=
  if offset < lengthFieldSize then throw (.kekNoLengthField offset)
  else do
    let field := offset - lengthFieldSize
    let current := Bytes.toNatLE (Bytes.slice (← get) field offset)
    if current ≠ old then throw (.kekLengthMismatch old current)
    else Edit.write field (Bytes.ofNatLE lengthFieldSize new)

/-- Writes a key into a slot and sets the rest of the slot to zero. -/
def Edit.fillSlot (offset slot : Nat) (key : Bytes) : Edit Unit := do
  Edit.write offset key
  Edit.write (offset + key.length) (Bytes.zeros (slot - key.length))

/-- Puts one key-encryption key in the place of another. -/
def Edit.replaceKek (old new : Bytes) : Edit Unit :=
  if old.length < new.length then throw (.kekTooLong old.length new.length)
  else do
    let offset ← Edit.find old
    if new.length ≠ old.length then Edit.updateLengthField offset old.length new.length
    Edit.fillSlot offset old.length new

/-- The binary with one key-encryption key in the place of another. -/
def replaceKek (binary old new : Bytes) : Except Error Bytes :=
  (Edit.replaceKek old new).result binary

end Firmware.Factory
