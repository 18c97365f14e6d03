import Firmware.Factory.Region

/-!
# Factory binaries by area

`split` cuts a binary into the contents of the areas of one device, without the erased bytes at the
end of each; `join` puts such contents back in their places.  Contents are named after their areas
and kept in the order of the names.
-/

namespace Firmware.Factory

/-- Contents by area name; the names are distinct and ascend. -/
abbrev Blobs := List (String × Bytes)

/-- The content of an area in a binary, without the erased bytes at its end. -/
def areaContent (binary : Bytes) (erase : UInt8) (a : Flash.Area) : Bytes :=
  let (start, stop) := Bytes.clipRange a.offset.toUInt64 a.size.toUInt64 binary.length
  Bytes.trimEnd erase (Bytes.slice binary start stop)

/-- The first name that occurs a second time. -/
def firstRepeated (seen : List String) : List String → Option String
  | [] => none
  | n :: ns => if n ∈ seen then some n else firstRepeated (n :: seen) ns

/-- The contents of the areas of a device. -/
def split (binary : Bytes) (device : UInt8) (areas : List Flash.Area) (erase : UInt8) :
    Except Error Blobs :=
  match Flash.validate areas with
  | .error e => .error (.flash e)
  | .ok () =>
    let here := areas.filter (·.device = device)
    match firstRepeated [] (here.map (·.name)) with
    | some name => .error (.duplicateAreaName name)
    | none =>
      .ok ((here.map fun a => (a.name, areaContent binary erase a)).mergeSort
        fun x y => decide (x.1 ≤ y.1))

/-- The areas that have contents, each with them, in the order of their offsets. -/
def placed (blobs : Blobs) (areas : List Flash.Area) : List (Flash.Area × Bytes) :=
  (areas.filterMap fun a => (blobs.lookup a.name).map (a, ·)).mergeSort
    fun x y => decide (x.1.offset ≤ y.1.offset)

/-- Appends the contents of an area at its offset.  Empty contents leave the output as it is. -/
def place (erase : UInt8) (out : Bytes) (a : Flash.Area) (data : Bytes) : Except Error Bytes :=
  if data.isEmpty then .ok out
  else if a.offset.toNat < out.length then
    .error (.areaOutOfOrder a.name a.offset.toNat out.length)
  else if a.size.toNat < data.length then
    .error (.blobTooLarge a.name a.size.toNat data.length)
  else .ok (Bytes.resize a.offset.toNat erase out ++ data)

/-- The binary that has the given contents in their areas and `erase` between them.  It ends with
the last contents. -/
def join (blobs : Blobs) (erase : UInt8) (areas : List Flash.Area) : Except Error Bytes :=
  match Flash.validate areas with
  | .error e => .error (.flash e)
  | .ok () =>
    match (placed blobs areas).foldlM (fun out (a, data) => place erase out a data) [] with
    | .error e => .error e
    | .ok out =>
      match (blobs.map (·.1)).filter fun name => areas.all (·.name ≠ name) with
      | [] => .ok out
      | name :: more => .error (.unconsumedBlobs (name :: more))

end Firmware.Factory
