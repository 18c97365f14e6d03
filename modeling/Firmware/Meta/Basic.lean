import Firmware.Hex
import Firmware.Sink

/-!
# Meta regions: the type

A factory binary may carry a meta region: small tagged values and, behind them, a footer of eight
bytes with the size of the whole region.  The region is found from its end.  One value may hold a
digest of the binary that carries the region.
-/

namespace Firmware

namespace Meta

/-- The last word of a region. -/
def magic : UInt32 := 0x3bb2a269

/-- The version that new regions have. -/
def currentVersion : UInt8 := 2

def footerLength : Nat := 8

def hashLength : Nat := 32

/-! ## Tagged values -/

/-- A digest of the carrying binary. -/
def hashTag : UInt8 := 0x01

/-- The place of a flash area. -/
def flashAreaTag : UInt8 := 0x02

/-- A flash area that has a meta region of its own. -/
def refTag : UInt8 := 0x04

def tagName (tag : UInt8) : String :=
  (([(hashTag, "HASH"), (flashAreaTag, "FLASH_AREA"), (refTag, "MMR_REF")] :
    List (UInt8 × String)).lookup tag).getD "UNKNOWN"

/-- A tagged value. -/
structure Item where
  tag : UInt8
  data : Bytes
deriving DecidableEq, Inhabited

namespace Item

/-- The size of a value with its two header bytes. -/
def size (t : Item) : Nat := 2 + t.data.length

/-- A digest that is still to be computed. -/
def blankHash : Item := ⟨hashTag, Bytes.zeros hashLength⟩

def toDebug (t : Item) : String :=
  "MetaTlv \x7b tlv_type: " ++ Hex.prefixed 2 t.tag.toNat ++ ", data: " ++ Hex.encode t.data ++
    " \x7d"

end Item

/-- The sizes of a list of values. -/
def areaSize (items : List Item) : Nat := items.foldr (fun t n => t.size + n) 0

/-! ## Footer -/

/-- The footer; its size is ignored on writing. -/
structure Footer where
  size : UInt16
  version : UInt8
  pad : UInt8
deriving DecidableEq, Inhabited

/-! ## Errors -/

/-- The pieces that a region is written in. -/
inductive Field where
  | tlvHeader
  | tlvData
  | footer
deriving DecidableEq

def Field.label : Field → String
  | .tlvHeader => "tlv_header"
  | .tlvData => "tlv_data"
  | .footer => "footer"

/-- What can be wrong with a region. -/
inductive Error where
  | footerTruncated (len : Nat)
  | invalidMagic (found : UInt32)
  | regionSizeTooSmall (size : UInt16)
  | regionSizeTooLarge (size : UInt16) (available : Nat)
  | regionTooLarge (size : Nat)
  | tlvHeaderTruncated (index offset : Nat)
  | tlvDataTruncated (index : Nat) (len : UInt8) (available : Nat)
  | tlvDataTooLarge (index len : Nat)
  | tlvNotUnique (name : String) (count : Nat)
  | tlvInvalidSize (name : String) (len : Nat)
  | write (field : Field)
deriving DecidableEq

def Error.message : Error → String
  | .footerTruncated len => s!"Data too small to contain meta footer: {len} bytes"
  | .invalidMagic found => "Invalid meta footer magic: " ++ Hex.prefixed 8 found.toNat
  | .regionSizeTooSmall size => s!"Meta region size too small: {size.toNat} < {footerLength}"
  | .regionSizeTooLarge size available =>
    s!"Meta region size {size.toNat} exceeds available {available} bytes"
  | .regionTooLarge size => s!"Meta region too large: {size} bytes"
  | .tlvHeaderTruncated index offset => s!"TLV #{index}: Header truncated at offset {offset}"
  | .tlvDataTruncated index len available =>
    s!"TLV #{index}: Data length {len.toNat} exceeds remaining {available} bytes"
  | .tlvDataTooLarge index len => s!"TLV #{index}: Data too large: {len} bytes"
  | .tlvNotUnique name count => s!"Expected exactly one {name} TLV, but have {count}"
  | .tlvInvalidSize name len => s!"Invalid {name} TLV size: {len}"
  | .write field => "Failed to write meta data: " ++ field.label

/-! ## Flash areas and references -/

/-- The place of a flash area, as a region records it. -/
structure AreaEntry where
  area : UInt8
  device : UInt8
  offset : UInt32
  size : UInt32
deriving DecidableEq

/-- An entry as a tagged value. -/
def AreaEntry.toItem (e : AreaEntry) : Item :=
  ⟨flashAreaTag, e.area :: e.device :: Bytes.ofU32 e.offset ++ Bytes.ofU32 e.size⟩

def AreaEntry.read? (data : Bytes) : Option AreaEntry := do
  let (area, bs) ← Bytes.readU8 data
  let (device, bs) ← Bytes.readU8 bs
  let (offset, bs) ← Bytes.readU32 bs
  let (size, bs) ← Bytes.readU32 bs
  if bs.isEmpty then some ⟨area, device, offset, size⟩ else none

/-- A reference to a flash area as a tagged value. -/
def refItem (area : UInt8) : Item := ⟨refTag, [area]⟩

def readRef? : Bytes → Option UInt8
  | [area] => some area
  | _ => none

end Meta

/-! ## Regions -/

/-- A meta region. -/
structure Meta where
  items : List Meta.Item
  footer : Meta.Footer
deriving DecidableEq, Inhabited

namespace Meta

/-- The size of the region when it is written, whatever its footer says. -/
def size (m : Meta) : Nat := areaSize m.items + footerLength

/-- A region with a footer that fits its values. -/
def ofItems (items : List Item) : Except Error Meta :=
  let total := areaSize items + footerLength
  if total < UInt16.size then .ok ⟨items, ⟨UInt16.ofNat total, currentVersion, 0xff⟩⟩
  else .error (.regionTooLarge total)

/-- The values with a tag. -/
def itemsOf (m : Meta) (tag : UInt8) : List Item := m.items.filter (·.tag = tag)

/-- The only digest and its place. -/
def hashItem (m : Meta) : Except Error (Item × Nat) :=
  match m.items.zipIdx.filter fun (t, _) => t.tag = hashTag with
  | [(t, i)] =>
    if t.data.length = hashLength then .ok (t, i)
    else .error (.tlvInvalidSize (tagName hashTag) t.data.length)
  | found => .error (.tlvNotUnique (tagName hashTag) found.length)

/-- The place of the only digest. -/
def hashIndex (m : Meta) : Except Error Nat := m.hashItem.map (·.2)

/-- The digest that the region carries. -/
def hash (m : Meta) : Except Error Bytes := m.hashItem.map (·.1.data)

/-- The flash areas that the region lists. -/
def flashAreas (m : Meta) : Except Error (List AreaEntry) :=
  (m.itemsOf flashAreaTag).mapM fun t =>
    match AreaEntry.read? t.data with
    | some e => .ok e
    | none => .error (.tlvInvalidSize (tagName flashAreaTag) t.data.length)

/-- The flash areas that the region refers to. -/
def refs (m : Meta) : Except Error (List UInt8) :=
  (m.itemsOf refTag).mapM fun t =>
    match readRef? t.data with
    | some area => .ok area
    | none => .error (.tlvInvalidSize (tagName refTag) t.data.length)

end Meta

end Firmware
