import Firmware.Meta.Basic

/-!
# Meta regions: the format

`Meta.parse` reads the region at the end of a byte string and says where it starts; what stands
before the region is not looked at.  `Meta.script` lists the writes of a region.  It computes the
size in the footer anew, and it meets a value that is too long only when it gets there.
-/

namespace Firmware.Meta

/-! ## Reading -/

/-- Reads a value off the front; `index` and `offset` say where it stands. -/
def Item.read (index offset : Nat) : Bytes → Except Error (Item × Bytes)
  | tag :: len :: rest =>
    match Bytes.splitAt? len.toNat rest with
    | some (data, rest) => .ok (⟨tag, data⟩, rest)
    | none => .error (.tlvDataTruncated index len rest.length)
  | _ => .error (.tlvHeaderTruncated index offset)

theorem Item.length_lt_of_read {index offset : Nat} {bs rest : Bytes} {t : Item}
    (h : Item.read index offset bs = .ok (t, rest)) : rest.length < bs.length := by
  unfold Item.read at h
  split at h
  · split at h
    · rename_i hs
      obtain ⟨rfl, -⟩ := Bytes.splitAt?_eq_some_iff.1 hs
      cases h
      simp
      omega
    · cases h
  · cases h

/-- Reads values until the input is used up. -/
def readFrom (index offset : Nat) (bs : Bytes) : Except Error (List Item) :=
  if bs.isEmpty then .ok []
  else
    match h : Item.read index offset bs with
    | .error e => .error e
    | .ok (t, rest) =>
      have := Item.length_lt_of_read h
      match readFrom (index + 1) (offset + t.size) rest with
      | .error e => .error e
      | .ok ts => .ok (t :: ts)
termination_by bs.length

/-- Reads the fields of a footer and the magic behind them. -/
def Footer.read? (bs : Bytes) : Option (Footer × UInt32) := do
  let (size, bs) ← Bytes.readU16 bs
  let (version, bs) ← Bytes.readU8 bs
  let (pad, bs) ← Bytes.readU8 bs
  let (magic, _) ← Bytes.readU32 bs
  return (⟨size, version, pad⟩, magic)

/-- The region that ends where the data ends, and its offset. -/
def parse (data : Bytes) : Except Error (Meta × Nat) :=
  if data.length < footerLength then .error (.footerTruncated data.length)
  else
    match Footer.read? (data.drop (data.length - footerLength)) with
    | none => .error (.footerTruncated data.length)
    | some (footer, found) =>
      if found ≠ magic then .error (.invalidMagic found)
      else if footer.size.toNat < footerLength then .error (.regionSizeTooSmall footer.size)
      else if data.length < footer.size.toNat then
        .error (.regionSizeTooLarge footer.size data.length)
      else
        let start := data.length - footer.size.toNat
        match readFrom 0 0 (Bytes.slice data start (data.length - footerLength)) with
        | .error e => .error e
        | .ok items => .ok (⟨items, footer⟩, start)

/-! ## Offsets -/

/-- Where the parts of a region stand, counted from its start. -/
structure Offsets where
  items : List Nat
  footer : Nat
  totalSize : Nat
deriving DecidableEq

/-- The offsets of consecutive values from `start` on, and the offset behind them. -/
def offsetsFrom (start : Nat) : List Item → List Nat × Nat
  | [] => ([], start)
  | t :: ts =>
    let (rest, stop) := offsetsFrom (start + t.size) ts
    (start :: rest, stop)

def offsets (m : Meta) : Offsets :=
  let (items, stop) := offsetsFrom 0 m.items
  ⟨items, stop, stop + footerLength⟩

/-! ## Writing -/

/-- The footer with the size that the region really has. -/
def footerBytes (m : Meta) : Bytes :=
  Bytes.ofNatLE 2 m.size ++ [m.footer.version, m.footer.pad] ++ Bytes.ofU32 magic

/-- The two bytes before the data of a value. -/
def Item.headerBytes (t : Item) : Bytes := [t.tag, UInt8.ofNat t.data.length]

/-- A value as it stands in the region. -/
def Item.toBytes (t : Item) : Bytes := t.headerBytes ++ t.data

/-- The writes of the values from `index` on and then of the footer, ending with an error at the
first value whose data is too long. -/
def scriptFrom (footer : Bytes) (index : Nat) : List Item → Script Field Error
  | [] => ⟨[(.footer, footer)], none⟩
  | t :: ts =>
    if t.data.length < UInt8.size then
      (scriptFrom footer (index + 1) ts).prepend [(.tlvHeader, t.headerBytes), (.tlvData, t.data)]
    else .fail (.tlvDataTooLarge index t.data.length)

def script (m : Meta) : Script Field Error :=
  if UInt16.size ≤ m.size then .fail (.regionTooLarge m.size)
  else scriptFrom m.footerBytes 0 m.items

/-- The region as it stands at the end of a binary. -/
def toBytes (m : Meta) : Except Error Bytes := m.script.toBytes

/-- Writes the region to a store that may run full and says where its parts went.  The total is
what the store has accepted of this region. -/
def writeTo (m : Meta) (t : Tally) : Tally × Except Error Offsets :=
  match m.script.writeTo .write t with
  | (t', .error e) => (t', .error e)
  | (t', .ok ()) =>
    let (items, stop) := offsetsFrom 0 m.items
    (t', .ok ⟨items, stop, t'.count - t.count⟩)

/-! ## Diagnostic form -/

def toDebug (m : Meta) : String :=
  "Meta \x7b tlvs: [" ++ ", ".intercalate (m.items.map Item.toDebug) ++
    "], footer: MetaFooter \x7b size: " ++ toString m.footer.size.toNat ++
    s!", version: {m.footer.version.toNat}, pad: {m.footer.pad.toNat} \x7d \x7d"

end Firmware.Meta
