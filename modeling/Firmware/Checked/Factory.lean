import Firmware.Checked.Basic
import Firmware.Factory.Areas

/-!
# Factory binaries by position

Meta regions, factory binaries and flash layouts with checked accesses.  A region is found from the
end of the data, its digest is looked up by the position of its value, and recomputing the digest
copies the region and then the digest into the binary.  The areas of a device are compared with
those behind them, and a binary is cut at the ends of the areas and before its erased bytes.

Flash areas and references in a region are read from values of one size only, so nothing is looked
up by position there.
-/

namespace Firmware.Checked

/-! ## Meta regions -/

/-- A tag and a length of one byte. -/
def itemKind : ValueKind Meta.Item Meta.Error where
  headerSize := 2
  headerSize_pos := Nat.succ_pos 1
  header?
    | tag :: len :: behind => some (len.toNat, fun data => ⟨tag, data⟩, behind)
    | _ => none
  headerTruncated := .tlvHeaderTruncated
  dataTruncated index len available := .tlvDataTruncated index (UInt8.ofNat len) available

/-- The region that ends where the data ends, and its offset. -/
def parseMeta (data : Bytes) : Run Meta.Error (Meta × Nat) :=
  if data.length < Meta.footerLength then throw (.footerTruncated data.length)
  else do
    let footerStart ← access (sub data.length Meta.footerLength)
    match Meta.Footer.read? (← access (rangeFrom data footerStart)) with
    | none => throw (.footerTruncated data.length)
    | some (footer, found) =>
      if found ≠ Meta.magic then throw (.invalidMagic found)
      else if footer.size.toNat < Meta.footerLength then throw (.regionSizeTooSmall footer.size)
      else if data.length < footer.size.toNat then
        throw (.regionSizeTooLarge footer.size data.length)
      else
        let start ← access (sub data.length footer.size.toNat)
        let area ← access (range data start footerStart)
        let items ← readValues itemKind area [] 0
        return (⟨items, footer⟩, start)

/-- The position of the only digest. -/
def hashIndex (m : Meta) : Run Meta.Error Nat :=
  match (m.items.zipIdx.filter fun (t, _) => t.tag = Meta.hashTag).map (·.2) with
  | [i] => do
    let t ← access (index m.items i)
    if t.data.length ≠ Meta.hashLength then
      throw (.tlvInvalidSize (Meta.tagName Meta.hashTag) t.data.length)
    else return i
  | found => throw (.tlvNotUnique (Meta.tagName Meta.hashTag) found.length)

/-- The digest that the region carries. -/
def metaHash (m : Meta) : Run Meta.Error Bytes := do
  let i ← hashIndex m
  let t ← access (index m.items i)
  return t.data

/-- The flash areas that the region lists. -/
def flashAreas (m : Meta) : Run Meta.Error (List Meta.AreaEntry) :=
  (m.itemsOf Meta.flashAreaTag).mapM fun t =>
    match Meta.AreaEntry.read? t.data with
    | some e => return e
    | none => throw (.tlvInvalidSize (Meta.tagName Meta.flashAreaTag) t.data.length)

/-- The flash areas that the region refers to. -/
def refs (m : Meta) : Run Meta.Error (List UInt8) :=
  (m.itemsOf Meta.refTag).mapM fun t =>
    match Meta.readRef? t.data with
    | some area => return area
    | none => throw (.tlvInvalidSize (Meta.tagName Meta.refTag) t.data.length)

/-- The region with every byte of its digest zero. -/
def clearHash (m : Meta) : Run Meta.Error Meta := do
  let i ← hashIndex m
  let items ← access (modifyAt m.items i fun t =>
    .ok { t with data := Bytes.zeros t.data.length })
  return { m with items }

/-- The region with its digest recomputed for a binary that carries it at `offset`, and that
binary. -/
def rehashMeta (m : Meta) (offset : Nat) (carrier : Bytes) (erase : UInt8) :
    Run Meta.Error (Meta × Bytes) := do
  let cleared ← clearHash m
  let i ← hashIndex cleared
  let region ← ofResult cleared.toBytes
  let stop := offset + region.length
  let out ← access (copyTo (Bytes.extendTo stop erase carrier) offset stop region)
  let digest := Crypto.sha256 out
  let place ← access (index cleared.offsets.items i)
  let place := offset + place + 2
  let out ← access (copyTo out place (place + Meta.hashLength) digest)
  let items ← access (modifyAt cleared.items i fun t => do
    return { t with data := ← copy t.data digest })
  return ({ cleared with items }, out)

/-! ## Factory binaries -/

/-- The binary with the region that ends at `stop`, if one is asked for. -/
def parseFactory (data : Bytes) (stop : Option Nat) : Run Factory.Error Factory :=
  match stop with
  | none => return ⟨data, none, 0⟩
  | some stop =>
    if data.length < stop then throw (.metaEndOutOfBounds stop data.length)
    else do
      let front ← access (rangeTo data stop)
      let (region, offset) ← (parseMeta front).adapt .region
      return ⟨data, some region, offset⟩

/-- The binary and its region with the digest recomputed. -/
def rehashFactory (f : Factory) (erase : UInt8) : Run Factory.Error Factory :=
  match f.region with
  | none => throw .noMeta
  | some region => do
    let (region, binary) ← (rehashMeta region f.offset f.binary erase).adapt .region
    return { f with binary, region := some region }

/-- The digest in the region, copied to a buffer of its own, or that of the binary. -/
def factoryHash (f : Factory) : Run Factory.Error Bytes :=
  match f.region with
  | none => return Crypto.sha256 f.binary
  | some region => do
    let digest ← (metaHash region).adapt .region
    access (copy (Bytes.zeros Meta.hashLength) digest)

/-! ## Flash layouts -/

/-- The overlaps of the area `a`, which is at position `i` of a list in sweep order. -/
def overlaps (device : UInt8) (areas : List Flash.Area) (a : Flash.Area) (i : Nat) :
    Except Fault (List Flash.Problem) := do
  let behind ← rangeFrom areas (i + 1)
  return ((behind.takeWhile fun b => b.start < a.stop).filter fun b =>
    !b.isEmpty && !a.isEmpty).map (.overlap device a)

def sweep (device : UInt8) (areas : List Flash.Area) : Except Fault (List Flash.Problem) := do
  let found ← areas.zipIdx.mapM fun e => overlaps device areas e.1 e.2
  return found.flatten

/-- The breaches on one device. -/
def deviceProblems (areas : List Flash.Area) (device : UInt8) : Except Fault (List Flash.Problem) :=
  match areas.filter (·.device = device) with
  | [] => return []
  | a :: more => do
    let overlapping ← sweep device ((a :: more).mergeSort Flash.Area.sweepOrder)
    return Flash.duplicateIds device (a :: more) ++ overlapping

def validate (areas : List Flash.Area) : Run Flash.Error Unit := do
  let found ← access (Flash.octets.mapM (deviceProblems areas))
  match found.flatten with
  | [] => return ()
  | p :: more => throw (.layout (p :: more))

/-! ## Splitting -/

/-- The position behind the last byte that is not `fill`. -/
def trimmedLength (fill : UInt8) (bs : Bytes) : Nat :=
  match (bs.zipIdx.filter fun e => e.1 ≠ fill).getLast? with
  | some e => e.2 + 1
  | none => 0

/-- The content of an area in a binary, without the erased bytes at its end. -/
def areaContent (binary : Bytes) (erase : UInt8) (a : Flash.Area) : Except Fault Bytes := do
  let (start, stop) := Bytes.clipRange a.offset.toUInt64 a.size.toUInt64 binary.length
  let content ← range binary start stop
  rangeTo content (trimmedLength erase content)

/-- The contents of areas, in front of those that have been cut out, the last one first. -/
def collect (binary : Bytes) (erase : UInt8) (found : Factory.Blobs) :
    List Flash.Area → Run Factory.Error Factory.Blobs
  | [] => return found
  | a :: areas =>
    if a.name ∈ found.map (·.1) then throw (.duplicateAreaName a.name)
    else do
      let content ← access (areaContent binary erase a)
      collect binary erase ((a.name, content) :: found) areas

/-- The contents of the areas of a device. -/
def split (binary : Bytes) (device : UInt8) (areas : List Flash.Area) (erase : UInt8) :
    Run Factory.Error Factory.Blobs := do
  (validate areas).adapt .flash
  let found ← collect binary erase [] (areas.filter (·.device = device))
  return found.reverse.mergeSort fun x y => decide (x.1 ≤ y.1)

end Firmware.Checked
