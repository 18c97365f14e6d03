import Firmware.Flash.Layout
import Firmware.Meta.Digest

/-!
# Factory binaries

A factory binary is the content of a flash device as it leaves the factory, with or without a meta
region.  A `Factory` keeps the binary and, beside it, the region that was read from it; `toBytes`
puts the region back and `rehash` brings the digest up to date in both.
-/

namespace Firmware

namespace Factory

/-- What can go wrong with a factory binary. -/
inductive Error where
  | emptyPattern
  | patternCount (count : Nat)
  /-- A key can only be replaced by one of the same length. -/
  | replacementLength (old new : Nat)
  /-- The slot of the old key is too small for the new one. -/
  | kekTooLong (old new : Nat)
  /-- There is no room for a length field before the key. -/
  | kekNoLengthField (offset : Nat)
  /-- The length field before the key is not the key's length. -/
  | kekLengthMismatch (expected actual : Nat)
  | duplicateAreaName (name : String)
  /-- The area starts before the end of what is already there. -/
  | areaOutOfOrder (name : String) (offset len : Nat)
  | blobTooLarge (name : String) (size len : Nat)
  /-- Some data belongs to no area. -/
  | unconsumedBlobs (names : List String)
  | metaEndOutOfBounds (stop len : Nat)
  | noMeta
  | flash (cause : Flash.Error)
  | region (cause : Meta.Error)
deriving DecidableEq

/-- The text of an error, without that of its cause. -/
def Error.message : Error → String
  | .emptyPattern => "Pattern to search for is empty"
  | .patternCount count => s!"Expected exactly one occurrence of pattern, but found {count}"
  | .replacementLength old new => s!"Replacement is {new} bytes, but original is {old} bytes"
  | .kekTooLong old new =>
    s!"New KEK ({new} bytes) is longer than the old KEK ({old} bytes)"
  | .kekNoLengthField offset =>
    "KEK at offset " ++ Hex.prefixed 0 offset ++ " has no preceding length field"
  | .kekLengthMismatch expected actual =>
    s!"KEK length field is {actual}, but old KEK is {expected} bytes"
  | .duplicateAreaName name => "Duplicate flash area name: " ++ Text.quoted name
  | .areaOutOfOrder name offset len =>
    "Area " ++ Text.quoted name ++ " starts at " ++ Hex.prefixed 0 offset ++
      ", but output is already " ++ Hex.prefixed 0 len ++ " bytes"
  | .blobTooLarge name size len =>
    "Area " ++ Text.quoted name ++ " is " ++ Hex.prefixed 0 size ++ " bytes, but blob is " ++
      Hex.prefixed 0 len ++ " bytes"
  | .unconsumedBlobs names => "Blobs do not match any flash area: " ++ ", ".intercalate names
  | .metaEndOutOfBounds stop len =>
    "Meta end offset " ++ Hex.prefixed 0 stop ++ " exceeds binary size " ++ Hex.prefixed 0 len
  | .noMeta => "Image has no meta region"
  | .flash _ => "Flash layout error"
  | .region _ => "Meta region error"

end Factory

/-- A factory binary and the meta region that was read from it. -/
structure Factory where
  binary : Bytes
  region : Option Meta
  /-- Where the region starts in the binary. -/
  offset : Nat
deriving DecidableEq, Inhabited

namespace Factory

/-- The binary with the region that ends at `stop`, if one is asked for. -/
def parse (data : Bytes) (stop : Option Nat) : Except Error Factory :=
  match stop with
  | none => .ok ⟨data, none, 0⟩
  | some stop =>
    if data.length < stop then .error (.metaEndOutOfBounds stop data.length)
    else
      match Meta.parse (data.take stop) with
      | .error e => .error (.region e)
      | .ok (region, offset) => .ok ⟨data, some region, offset⟩

/-- The binary with the region in its place, filled up with `erase` if it is too short. -/
def toBytes (f : Factory) (erase : UInt8) : Except Error Bytes :=
  match f.region with
  | none => .ok f.binary
  | some region =>
    match region.toBytes with
    | .error e => .error (.region e)
    | .ok bytes => .ok (Meta.splice f.binary f.offset erase bytes)

/-- The binary and its region with the digest recomputed. -/
def rehash (f : Factory) (erase : UInt8) : Except Error Factory :=
  match f.region with
  | none => .error .noMeta
  | some region =>
    match region.rehash f.offset f.binary erase with
    | .error e => .error (.region e)
    | .ok (region, binary) => .ok { f with binary, region := some region }

/-- The digest in the region or, without one, that of the binary. -/
def hash (f : Factory) : Except Error Bytes :=
  match f.region with
  | none => .ok (Crypto.sha256 f.binary)
  | some region =>
    match region.hash with
    | .error e => .error (.region e)
    | .ok digest => .ok digest

end Factory

end Firmware
