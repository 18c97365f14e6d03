import Firmware.Encoding.Oid

/-!
# Distinguished encoding

Values as nested elements of a tag and a content (X.690).  The encoding of a value is unique:
lengths and numbers have no needless bytes, and reading refuses everything else.  An element is
read without a look into its content; a structured value is then read from the list of the elements
in it.  An encoding may not be larger than `maxSize`, whether it is read or written.
-/

namespace Firmware.Der

/-- A tag with the content that it describes. -/
structure Element where
  tag : UInt8
  content : Bytes
deriving DecidableEq, Inhabited

/-! ## Tags -/

def integerTag : UInt8 := 0x02

def bitStringTag : UInt8 := 0x03

def octetStringTag : UInt8 := 0x04

def nullTag : UInt8 := 0x05

def oidTag : UInt8 := 0x06

def sequenceTag : UInt8 := 0x30

/-- The universal tags that may occur. -/
def universalTags : List UInt8 :=
  [0x01, 0x02, 0x03, 0x04, 0x05, 0x06, 0x09, 0x0a, 0x0c, 0x12, 0x13, 0x14, 0x15, 0x16, 0x17, 0x18,
    0x1a, 0x1e, 0x30, 0x31]

/-- Whether a byte is a tag.  Tags of more than one byte are not supported. -/
def isTag (t : UInt8) : Bool :=
  if t < 0x40 then universalTags.contains t else t.toNat % 32 != 31

/-- Whether a tag is specific to its context. -/
def isContextual (t : UInt8) : Bool := t.toNat / 64 == 2

/-- The number of a tag within its class. -/
def tagNumber (t : UInt8) : Nat := t.toNat % 32

/-- The tag of an element that wraps another one under a number of its context. -/
def explicitTag (number : Nat) : UInt8 := UInt8.ofNat (0xa0 + number)

/-- The tag that stands for a simple one under a number of its context. -/
def implicitTag (number : Nat) : UInt8 := UInt8.ofNat (0x80 + number)

/-! ## Writing -/

/-- The bytes of a number without leading zeros. -/
def minimalBytes (n : Nat) : Bytes :=
  Bytes.ofNatBE ((if n = 0 then 0 else Nat.log2 n / 8 + 1)) n

def lengthBytes (n : Nat) : Bytes :=
  if n < 128 then [UInt8.ofNat n]
  else
    let digits := minimalBytes n
    UInt8.ofNat (128 + digits.length) :: digits

def Element.toBytes (e : Element) : Bytes := e.tag :: lengthBytes e.content.length ++ e.content

def sequence (es : List Element) : Element := ⟨sequenceTag, es.flatMap Element.toBytes⟩

/-- A number.  A zero byte in front keeps the top bit clear. -/
def integer (n : Nat) : Element :=
  ⟨integerTag, Bytes.ofNatBE (if n = 0 then 1 else (Nat.log2 n + 1) / 8 + 1) n⟩

def octetString (bytes : Bytes) : Element := ⟨octetStringTag, bytes⟩

/-- A string of bits, given as bytes with some bits of the last one unused. -/
structure Bits where
  unused : Nat
  bytes : Bytes
deriving DecidableEq

namespace Bits

/-- The bits of whole bytes. -/
def ofBytes (bytes : Bytes) : Bits := ⟨0, bytes⟩

/-- The bytes, if all of their bits are used. -/
def toBytes? (b : Bits) : Option Bytes := if b.unused = 0 then some b.bytes else none

/-- The content of a bit string. -/
def content (b : Bits) : Bytes := UInt8.ofNat b.unused :: b.bytes

/-- Reads the content of a bit string. -/
def ofContent? : Bytes → Option Bits
  | [] => none
  | unused :: bytes =>
    if 7 < unused ∨ (unused ≠ 0 ∧ bytes = []) then none else some ⟨unused.toNat, bytes⟩

end Bits

def bitString (bits : Bits) : Element := ⟨bitStringTag, bits.content⟩

def oid (o : Oid) : Element := ⟨oidTag, o.body⟩

def null : Element := ⟨nullTag, []⟩

/-- An element under a number of its context. -/
def explicit (number : Nat) (e : Element) : Element := ⟨explicitTag number, e.toBytes⟩

/-! ## Reading elements -/

/-- A length of one byte, or of up to four bytes behind their count, in its shortest form. -/
def readLength (bs : Bytes) : Option (Nat × Bytes) :=
  match bs with
  | [] => none
  | b :: r =>
    if b < 0x80 then some (b.toNat, r)
    else if b = 0x80 ∨ 0x84 < b then none
    else
      (Bytes.splitAt? (b.toNat - 128) r).bind fun (digits, rest) =>
        let n := Bytes.toNatBE digits
        if lengthBytes n = b :: digits then some (n, rest) else none

/-- An element off the front. -/
def readElement (bs : Bytes) : Option (Element × Bytes) :=
  match bs with
  | [] => none
  | tag :: r =>
    if isTag tag then
      (readLength r).bind fun (n, r) =>
        (Bytes.splitAt? n r).map fun (content, rest) => (⟨tag, content⟩, rest)
    else none

theorem length_of_readLength {bs r : Bytes} {n : Nat} (h : readLength bs = some (n, r)) :
    r.length ≤ bs.length := by
  unfold readLength at h
  split at h
  · simp at h
  · split at h
    · simp_all
    · split at h
      · simp at h
      · obtain ⟨⟨digits, rest⟩, hs, h⟩ := Option.bind_eq_some_iff.mp h
        have hl := (Bytes.splitAt?_eq_some_iff.mp hs).1
        dsimp only at h
        split at h
        · obtain ⟨_, rfl⟩ := Prod.mk.inj (Option.some.inj h)
          simp [hl]
          omega
        · simp at h

theorem length_of_readElement {bs r : Bytes} {e : Element} (h : readElement bs = some (e, r)) :
    r.length < bs.length := by
  unfold readElement at h
  split at h
  · simp at h
  · split at h
    · obtain ⟨⟨n, r₁⟩, hn, h⟩ := Option.bind_eq_some_iff.mp h
      obtain ⟨⟨content, r₂⟩, hs, h⟩ := Option.map_eq_some_iff.mp h
      have h₁ := length_of_readLength hn
      have h₂ := (Bytes.splitAt?_eq_some_iff.mp hs).1
      obtain ⟨_, rfl⟩ := Prod.mk.inj h
      simp_all
      omega
    · simp at h

/-- The elements that a content consists of. -/
def elements? (bs : Bytes) : Option (List Element) :=
  match bs with
  | [] => some []
  | b :: r =>
    match _h : readElement (b :: r) with
    | none => none
    | some (e, rest) => (elements? rest).map (e :: ·)
termination_by bs.length
decreasing_by exact length_of_readElement _h

/-- The largest number of bytes in an encoding. -/
def maxSize : Nat := 0xfffffff

/-- The one element that makes up the whole input. -/
def parse? (bs : Bytes) : Option Element :=
  if bs.length ≤ maxSize then
    match readElement bs with
    | some (e, []) => some e
    | _ => none
  else none

/-! ## Reading values -/

namespace Element

/-- The content of an element with the given tag. -/
def expect? (tag : UInt8) (e : Element) : Option Bytes :=
  if e.tag = tag then some e.content else none

def sequence? (e : Element) : Option (List Element) := do elements? (← e.expect? sequenceTag)

/-- A number that is not negative, in its shortest form. -/
def natural? (e : Element) : Option Nat := do
  match ← e.expect? integerTag with
  | [] => none
  | [b] => if b < 0x80 then some b.toNat else none
  | b :: c :: r =>
    if 0x80 ≤ b ∨ (b = 0 ∧ c < 0x80) then none else some (Bytes.toNatBE (b :: c :: r))

/-- A number below a bound. -/
def naturalBelow? (bound : Nat) (e : Element) : Option Nat := do
  let n ← e.natural?
  if n < bound then some n else none

def octets? (e : Element) : Option Bytes := e.expect? octetStringTag

def bits? (e : Element) : Option Bits := do Bits.ofContent? (← e.expect? bitStringTag)

def oid? (e : Element) : Option Oid := do Oid.ofBytes? (← e.expect? oidTag)

/-- Whether the tag is specific to its context and has the given number. -/
def hasNumber (number : Nat) (e : Element) : Bool := isContextual e.tag && tagNumber e.tag == number

/-- The element that is wrapped under a number of its context. -/
def explicit? (number : Nat) (e : Element) : Option Element := do
  parse? (← e.expect? (explicitTag number))

/-- Whether an element wraps another one under some number of its context. -/
def isExplicit (e : Element) : Bool := (e.explicit? (tagNumber e.tag)).isSome

end Element

/-- Takes the field with a number of the context off the front.  Fields with lower numbers are
skipped, whatever they are. -/
def takeField (number : Nat) (fields : List Element) : Option Element × List Element :=
  match fields.dropWhile fun e => isContextual e.tag && tagNumber e.tag < number with
  | [] => (none, [])
  | e :: rest => if e.hasNumber number then (some e, rest) else (none, e :: rest)

end Firmware.Der
