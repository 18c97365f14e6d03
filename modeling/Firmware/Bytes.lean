/-!
# Byte strings

Everything the formats read and write is a `Bytes`, a list of octets.  This module holds the
little- and big-endian codings of numbers, the readers that split a value off the front and hand
back the rest, and the few cuts and patches that the formats share.

A reader returns `none` exactly when the input is shorter than the value; nothing here ever looks
past the end of its input.
-/

namespace Firmware

/-- A byte string. -/
abbrev Bytes := List UInt8

namespace Bytes

/-! ## Numbers as bytes -/

/-- The `w` low base-256 digits of `n`, least significant first. -/
def ofNatLE : Nat → Nat → Bytes
  | 0, _ => []
  | w + 1, n => UInt8.ofNat n :: ofNatLE w (n / 256)

/-- The number whose base-256 digits, least significant first, are the given bytes. -/
def toNatLE : Bytes → Nat
  | [] => 0
  | b :: bs => b.toNat + 256 * toNatLE bs

/-- The `w` low base-256 digits of `n`, most significant first. -/
def ofNatBE (w n : Nat) : Bytes := (ofNatLE w n).reverse

/-- The number whose base-256 digits, most significant first, are the given bytes. -/
def toNatBE (bs : Bytes) : Nat := bs.foldl (fun n b => 256 * n + b.toNat) 0

/-- A 16-bit word in little-endian order. -/
def ofU16 (x : UInt16) : Bytes := ofNatLE 2 x.toNat

/-- A 32-bit word in little-endian order. -/
def ofU32 (x : UInt32) : Bytes := ofNatLE 4 x.toNat

@[simp] theorem length_ofNatLE (w n : Nat) : (ofNatLE w n).length = w := by
  induction w generalizing n with
  | zero => rfl
  | succ w ih => simp [ofNatLE, ih]

@[simp] theorem length_ofNatBE (w n : Nat) : (ofNatBE w n).length = w := by
  simp [ofNatBE]

@[simp] theorem length_ofU16 (x : UInt16) : (ofU16 x).length = 2 := length_ofNatLE 2 _

@[simp] theorem length_ofU32 (x : UInt32) : (ofU32 x).length = 4 := length_ofNatLE 4 _

/-! ## Readers -/

/-- Whether a list has `n` elements or more; only the first `n` cells are visited. -/
def hasAtLeast {α : Type} : Nat → List α → Bool
  | 0, _ => true
  | _ + 1, [] => false
  | n + 1, _ :: r => hasAtLeast n r

theorem hasAtLeast_iff {α : Type} (n : Nat) (l : List α) :
    hasAtLeast n l = true ↔ n ≤ l.length := by
  induction n generalizing l with
  | zero => simp [hasAtLeast]
  | succ n ih => cases l <;> simp [hasAtLeast, ih]

/-- The first `n` bytes and the rest. -/
def splitAt? (n : Nat) (bs : Bytes) : Option (Bytes × Bytes) :=
  if hasAtLeast n bs then some (bs.take n, bs.drop n) else none

theorem splitAt?_eq_some_iff {n : Nat} {bs d r : Bytes} :
    splitAt? n bs = some (d, r) ↔ bs = d ++ r ∧ d.length = n := by
  unfold splitAt?
  split
  · rename_i h
    rw [hasAtLeast_iff] at h
    constructor
    · intro e
      obtain ⟨rfl, rfl⟩ := Prod.mk.inj (Option.some.inj e)
      exact ⟨(List.take_append_drop n bs).symm, by simp [Nat.min_eq_left h]⟩
    · rintro ⟨rfl, rfl⟩
      simp
  · rename_i h
    rw [hasAtLeast_iff] at h
    constructor
    · intro e
      cases e
    · rintro ⟨rfl, rfl⟩
      simp at h

theorem splitAt?_eq_none_iff {n : Nat} {bs : Bytes} : splitAt? n bs = none ↔ bs.length < n := by
  rw [← Nat.not_le, ← hasAtLeast_iff]
  unfold splitAt?
  split
  · rename_i henough
    constructor
    · intro h
      cases h
    · intro h
      exact absurd henough h
  · rename_i hshort
    exact ⟨fun _ => hshort, fun _ => rfl⟩

/-- A byte off the front. -/
def readU8 : Bytes → Option (UInt8 × Bytes)
  | [] => none
  | b :: r => some (b, r)

/-- A little-endian number of `w` bytes off the front. -/
def readLE (w : Nat) (bs : Bytes) : Option (Nat × Bytes) :=
  (splitAt? w bs).map fun (d, r) => (toNatLE d, r)

/-- A little-endian 16-bit word off the front. -/
def readU16 (bs : Bytes) : Option (UInt16 × Bytes) :=
  (readLE 2 bs).map fun (n, r) => (UInt16.ofNat n, r)

/-- A little-endian 32-bit word off the front. -/
def readU32 (bs : Bytes) : Option (UInt32 × Bytes) :=
  (readLE 4 bs).map fun (n, r) => (UInt32.ofNat n, r)

/-! ## Cuts and patches -/

/-- The bytes without the trailing ones equal to `fill`; such bytes before another byte stay. -/
def trimEnd (fill : UInt8) (bs : Bytes) : Bytes :=
  (bs.reverse.dropWhile (· == fill)).reverse

/-- The bytes at positions `start` up to `stop`. -/
def slice (bs : Bytes) (start stop : Nat) : Bytes := (bs.drop start).take (stop - start)

/-- The bytes with `patch` written over those from `offset` on. -/
def overwrite (bs : Bytes) (offset : Nat) (patch : Bytes) : Bytes :=
  bs.take offset ++ patch ++ bs.drop (offset + patch.length)

/-- The bytes cut to `n`, or filled up with `fill` to `n`. -/
def resize (n : Nat) (fill : UInt8) (bs : Bytes) : Bytes :=
  bs.take n ++ List.replicate (n - bs.length) fill

/-- The bytes filled up with `fill` to at least `n`; none is cut off. -/
def extendTo (n : Nat) (fill : UInt8) (bs : Bytes) : Bytes :=
  bs ++ List.replicate (n - bs.length) fill

def zeros (n : Nat) : Bytes := List.replicate n 0

/-- Byte-wise exclusive or, as long as the shorter argument. -/
def xor (a b : Bytes) : Bytes := List.zipWith (· ^^^ ·) a b

/-- The bytes in pieces of `n`; the last piece may be shorter.  At most `fuel` pieces are cut. -/
def chunksUpTo (n : Nat) : Nat → Bytes → List Bytes
  | 0, _ => []
  | _ + 1, [] => []
  | fuel + 1, b :: bs => (b :: bs).take n :: chunksUpTo n fuel ((b :: bs).drop n)

/-- The bytes in pieces of `n` bytes, the last one possibly shorter. -/
def chunks (n : Nat) (bs : Bytes) : List Bytes := chunksUpTo n (bs.length / n + 1) bs

/-- The half-open range of `size` bytes from `offset`, clipped to a string of `len` bytes.  An end
beyond the 64-bit range counts as the largest 64-bit number. -/
def clipRange (offset size : UInt64) (len : Nat) : Nat × Nat :=
  (min offset.toNat len, min (min (offset.toNat + size.toNat) (UInt64.size - 1)) len)

/-- Lexicographic order of byte strings. -/
def ble : Bytes → Bytes → Bool
  | [], _ => true
  | _ :: _, [] => false
  | a :: as, b :: bs => a < b || (a == b && ble as bs)

/-- The UTF-8 encoding of a text. -/
def ofText (s : String) : Bytes := s.toUTF8.toList

/-- The text whose UTF-8 encoding is the given bytes, if there is one. -/
def toText? (bs : Bytes) : Option String := String.fromUTF8? ⟨bs.toArray⟩

end Bytes

end Firmware
