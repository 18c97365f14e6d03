import Firmware.Command.Basic
import Firmware.Command.Host
import Firmware.Flash.AreaList
import Firmware.Toml.Report

/-!
# Commands about factory binaries

The commands that split and join binaries by flash areas, replace the keys in them, and show and
update their meta regions.  Where a region is to be kept in step, an edit is followed by a new
digest.
-/

namespace Firmware.Command

variable {m : Type → Type} [Monad m] [Host m]

/-! ## Areas -/

/-- The ending of the files that areas are kept in. -/
def blobEnding : String := ".bin"

/-- The area whose content is in a file of this name; a name that is nothing but the ending has
none. -/
def blobArea? (fileName : String) : Option String :=
  let name := fileName.toList
  let ending := blobEnding.toList
  if ending.isSuffixOf name ∧ ending.length < name.length then
    some (String.ofList (name.take (name.length - ending.length)))
  else none

/-- The path of a name in a directory; an absolute name stands for itself. -/
def inDirectory (directory name : String) : String :=
  if name.startsWith "/" then name
  else if directory.endsWith "/" then directory ++ name
  else directory ++ "/" ++ name

def readAreas (path : String) : Session m (List Flash.Area) := do
  let data ← liftM (Host.load path : m (Option Bytes))
  let text ← demand (about "Failed to read flash area list" path) (data >>= Bytes.toText?)
  attempt (about "Failed to parse flash area list" path) (Flash.parseAreas text)

/-- The contents in a directory, by area name in ascending order. -/
def readBlobs (directory : String) : Session m Factory.Blobs := do
  let names ← demand (about "Failed to read directory" directory)
    (← liftM (Host.names directory : m (Option (List String))))
  let blobs ← (names.filterMap fun file => (blobArea? file).map (file, ·)).mapM
    fun (file, area) => return (area, ← content "Failed to read blob" (inDirectory directory file))
  return blobs.mergeSort fun a b => decide (a.1 ≤ b.1)

/-- Splits a binary into a file for each area of a device. -/
def splitBinary (input areas : String) (device : UInt8) (directory : String) (erase : UInt8) :
    Session m Unit := do
  let areas ← readAreas areas
  let data ← content "Failed to read binary" input
  let blobs ← attempt "Failed to split binary" (Factory.split data device areas erase)
  let made ← liftM (Host.makeDirectory directory : m Bool)
  demand (about "Failed to create directory" directory) (if made then some () else none)
  blobs.forM fun (name, blob) => do
    save "Failed to write blob" (inDirectory directory (name ++ blobEnding)) blob
    status s!"Wrote {name}: {blob.length} bytes"

/-- Joins the files of areas into a binary. -/
def joinBinary (directory areas path : String) (erase : UInt8) : Session m Unit := do
  let areas ← readAreas areas
  let blobs ← readBlobs directory
  let data ← attempt "Failed to join blobs" (Factory.join blobs erase areas)
  save "Failed to write binary" path data
  status s!"Joined {blobs.length} blobs into {data.length} bytes"

/-! ## Keys -/

/-- Brings the region of a binary up to date. -/
def updateRegion (erase : UInt8) (f : Factory) (label : String) : Session m Bytes := do
  let f ← attempt "Failed to recompute meta region hash" (f.rehash erase)
  status (label ++ Hex.encode (← check f.hash))
  check (f.toBytes erase)

/-- Writes an edited binary, after its region, if one is given, has been brought up to date. -/
def patchBinary (p : Patch) (edit : Bytes → Session m Bytes) : Session m Unit := do
  let data ← edit (← content "Failed to read binary" p.input)
  let data ←
    match p.stop with
    | none => pure data
    | some stop => do
      let f ← attempt ("Failed to find meta region ending at " ++ Hex.prefixed 0 stop)
        (Factory.parse data (some stop))
      updateRegion p.erase f "New meta region hash: "
  save "Failed to write binary" p.output data

/-- What a key is called in messages. -/
def Embedded.noun : Embedded → String
  | .signingKey => "key"
  | .kek => "KEK"

def Embedded.failure : Embedded → String
  | .signingKey => "Failed to replace image signing key"
  | .kek => "Failed to replace key-encryption key"

/-- Puts one key in the place of another, in the way of its kind. -/
def Embedded.replace : Embedded → Bytes → Bytes → Bytes → Except Factory.Error Bytes
  | .signingKey => Factory.replaceSigningKey
  | .kek => Factory.replaceKek

def replaceKey (kind : Embedded) (p : Patch) (old new : String) : Session m Unit := do
  let old ← content ("Failed to read " ++ kind.noun) old
  let new ← content ("Failed to read " ++ kind.noun) new
  patchBinary p fun data => attempt kind.failure (kind.replace data old new)

/-! ## Meta regions -/

/-- The binary in a file with the region that ends at an offset or at the end of the file. -/
def readRegion (path : String) (stop : Option Nat) : Session m Factory := do
  let data ← content "Failed to read binary" path
  let stop := stop.getD data.length
  attempt (about ("Failed to find meta region ending at " ++ Hex.prefixed 0 stop) path)
    (Factory.parse data (some stop))

def rehashBinary (p : Patch) : Session m Unit := do
  let f ← readRegion p.input p.stop
  save "Failed to write binary" p.output (← updateRegion p.erase f "New hash: ")

/-- What is shown of a region that starts at an offset of the binary. -/
def regionReport (region : Meta) (offset : Nat) (digest : Bytes) (current : Bool) :
    Except Meta.Error (List Toml.Section) := do
  let o := region.offsets
  let (_, items) := Toml.rows "tlvs" <| (region.items.zip o.items).zipIdx.map
    fun ((t, place), index) =>
      [("index", .number index), ("offset", .number (offset + place)),
        ("name", .text (Meta.tagName t.tag)), ("tlv_type", .number t.tag.toNat),
        ("data", .text (Hex.encode t.data))]
  let (noAreas, areas) := Toml.rows "flash_areas" <| (← region.flashAreas).map fun e =>
    [("area", .number e.area.toNat), ("device", .number e.device.toNat),
      ("offset", .number e.offset.toNat), ("size", .number e.size.toNat)]
  let (noRefs, refs) := Toml.rows "mmr_refs" <| (← region.refs).map fun r =>
    [("area", .number r.toNat)]
  return [⟨.none,
      [("offset", .number offset), ("size", .number o.totalSize),
        ("hash", .text (Hex.encode digest)), ("hash_valid", .truth current)] ++ noAreas ++ noRefs⟩,
    ⟨.table ["footer"],
      [("size", .number region.footer.size.toNat),
        ("version", .number region.footer.version.toNat),
        ("pad", .number region.footer.pad.toNat)]⟩] ++ items ++ areas ++ refs

/-- Prints what is to know about a region, with a warning if its digest is not current. -/
def printRegion (region : Meta) (offset : Nat) (digest : Bytes) (current : Bool) :
    Session m Unit := do
  if !current then warning "Stored hash does not match the binary contents"
  output (Toml.renderReport (← check (regionReport region offset digest current)))

/-- Shows the region of the binary in a file. -/
def showRegion (path : String) (stop : Option Nat) : Session m Unit := do
  let f ← readRegion path stop
  let region ← demand "Binary has no meta region" f.region
  let current ← attempt "Failed to compute meta region hash" (region.isCurrent f.offset f.binary)
  let digest ← attempt "Failed to get meta region hash" region.hash
  printRegion region f.offset digest current

end Firmware.Command
