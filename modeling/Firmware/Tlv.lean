import Firmware.Hex
import Firmware.Sink

/-!
# The TLV area of an image

Both image formats end in a list of tagged values: a tag, a pad byte, a 16-bit length and the data.
`Tlv.readAll` reads values until the input is used up, so an area has no length of its own; the
formats compare its length with a header field.  The names of the tags are those of the current
format, in both formats' messages.
-/

namespace Firmware

/-- A tagged value. -/
structure Tlv where
  tag : UInt8
  pad : UInt8 := 0
  data : Bytes
deriving DecidableEq, Inhabited

namespace Tlv

/-! ## Tags -/

/-- The truncated digest of a public key. -/
def keyHashTag : UInt8 := 0x01

def sha256Tag : UInt8 := 0x10

def rsa2048Tag : UInt8 := 0x20

def ecdsa224Tag : UInt8 := 0x21

def ecdsa256Tag : UInt8 := 0x22

def rsa3072Tag : UInt8 := 0x23

def ed25519Tag : UInt8 := 0x24

/-- An image secret wrapped with an RSA key. -/
def encRsaTag : UInt8 := 0x30

/-- An image secret wrapped with a key-encryption key. -/
def encKekTag : UInt8 := 0x31

/-- Whether a tag marks a signature. -/
def isSignature (tag : UInt8) : Bool := rsa2048Tag ≤ tag && tag ≤ ed25519Tag

/-- Whether a tag marks a wrapped image secret. -/
def isSecret (tag : UInt8) : Bool := tag == encRsaTag || tag == encKekTag

/-- The tags with a name. -/
def tagNames : List (UInt8 × String) :=
  [(keyHashTag, "KEYHASH"), (sha256Tag, "SHA256"), (rsa2048Tag, "RSA2048"),
    (ecdsa224Tag, "ECDSA224"), (ecdsa256Tag, "ECDSA256"), (rsa3072Tag, "RSA3072"),
    (ed25519Tag, "ED25519"), (encRsaTag, "ENC_RSA"), (encKekTag, "ENC_KEK")]

def tagName (tag : UInt8) : String := (tagNames.lookup tag).getD "UNKNOWN"

/-! ## Errors -/

/-- The pieces that a value is written in. -/
inductive Field where
  | header
  | data
deriving DecidableEq

def Field.label : Field → String
  | .header => "tlv_header"
  | .data => "tlv_data"

/-- What can be wrong with a TLV area. -/
inductive Error where
  | headerTruncated (index offset : Nat)
  | dataTruncated (index len available : Nat)
  | dataTooLarge (index len : Nat)
  | notUnique (name : String) (count : Nat)
  | write (field : Field)
deriving DecidableEq

def Error.message : Error → String
  | .headerTruncated index offset => s!"TLV #{index}: Header truncated at offset {offset}"
  | .dataTruncated index len available =>
    s!"TLV #{index}: Data length {len} exceeds remaining {available} bytes"
  | .dataTooLarge index len => s!"TLV #{index}: Data too large: {len} bytes"
  | .notUnique name count => s!"Expected exactly one {name} TLV, but have {count}"
  | .write field => "Failed to write image data: " ++ field.label

/-! ## Reading and writing -/

/-- The size of a value with `len` bytes of data, header included. -/
def sizeFor (len : Nat) : Nat := 4 + len

def size (t : Tlv) : Nat := sizeFor t.data.length

/-- The size of a list of values. -/
def areaSize (tlvs : List Tlv) : Nat := tlvs.foldr (fun t n => t.size + n) 0

/-- The four bytes before the data. -/
def headerBytes (t : Tlv) : Bytes := t.tag :: t.pad :: Bytes.ofNatLE 2 t.data.length

/-- A value as it stands in the area. -/
def toBytes (t : Tlv) : Bytes := t.headerBytes ++ t.data

/-- Reads a value off the front; `index` and `offset` say where it stands in the area. -/
def read (index offset : Nat) : Bytes → Except Error (Tlv × Bytes)
  | tag :: pad :: low :: high :: rest =>
    let len := Bytes.toNatLE [low, high]
    match Bytes.splitAt? len rest with
    | some (data, rest) => .ok (⟨tag, pad, data⟩, rest)
    | none => .error (.dataTruncated index len rest.length)
  | _ => .error (.headerTruncated index offset)

theorem length_lt_of_read {index offset : Nat} {bs rest : Bytes} {t : Tlv}
    (h : read index offset bs = .ok (t, rest)) : rest.length < bs.length := by
  unfold read at h
  split at h
  · dsimp only at h
    split at h
    · rename_i hs
      obtain ⟨rfl, -⟩ := Bytes.splitAt?_eq_some_iff.1 hs
      cases h
      simp
      omega
    · cases h
  · cases h

/-- Reads values until the input is used up. -/
def readFrom (index offset : Nat) (bs : Bytes) : Except Error (List Tlv) :=
  if bs.isEmpty then .ok []
  else
    match h : read index offset bs with
    | .error e => .error e
    | .ok (t, rest) =>
      have := length_lt_of_read h
      match readFrom (index + 1) (offset + t.size) rest with
      | .error e => .error e
      | .ok ts => .ok (t :: ts)
termination_by bs.length

def readAll (bs : Bytes) : Except Error (List Tlv) := readFrom 0 0 bs

/-- The writes of the values from `index` on: a header and the data for each, ending with an error
at the first value whose data is too long. -/
def scriptFrom (index : Nat) : List Tlv → Script Field Error
  | [] => ⟨[], none⟩
  | t :: ts =>
    if t.data.length < UInt16.size then
      (scriptFrom (index + 1) ts).prepend [(.header, t.headerBytes), (.data, t.data)]
    else .fail (.dataTooLarge index t.data.length)

/-- The writes of an area. -/
def script (tlvs : List Tlv) : Script Field Error := scriptFrom 0 tlvs

/-! ## Looking up -/

/-- The places of the values with a tag. -/
def indicesOf (tag : UInt8) (tlvs : List Tlv) : List Nat :=
  tlvs.zipIdx.filterMap fun (t, i) => if t.tag = tag then some i else none

/-- The offsets of consecutive values from `start` on, and the offset behind them. -/
def offsetsFrom (start : Nat) : List Tlv → List Nat × Nat
  | [] => ([], start)
  | t :: ts =>
    let (rest, stop) := offsetsFrom (start + t.size) ts
    (start :: rest, stop)

/-- The only value with a tag. -/
def findUnique (tag : UInt8) (tlvs : List Tlv) : Except Error Tlv :=
  match tlvs.filter (·.tag = tag) with
  | [t] => .ok t
  | found => .error (.notUnique (tagName tag) found.length)

def toDebug (t : Tlv) : String :=
  "Tlv \x7b tlv_type: " ++ Hex.prefixed 2 t.tag.toNat ++ s!", pad: {t.pad.toNat}, data: " ++
    Hex.encode t.data ++ " \x7d"

/-- The diagnostic form of a list of values. -/
def listDebug (tlvs : List Tlv) : String := "[" ++ ", ".intercalate (tlvs.map toDebug) ++ "]"

end Tlv

end Firmware
