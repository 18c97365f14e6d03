import Firmware.Hex
import Firmware.Text.Quoted

/-!
# Flash layouts

A layout is a list of named areas, each a range of one flash device with an ID.  On one device no
two areas may share a byte and no two may have the same ID; areas on different devices have nothing
to do with each other.  `problems` lists every breach: devices in ascending order, on each device
first the repeated IDs in ascending order and then the overlapping pairs.

An empty area overlaps nothing, wherever it lies.
-/

namespace Firmware.Flash

/-- A named range of a flash device. -/
structure Area where
  name : String
  id : UInt8
  device : UInt8
  offset : UInt32
  size : UInt32
deriving DecidableEq, Inhabited

namespace Area

/-- The first byte of the area. -/
def start (a : Area) : Nat := a.offset.toNat

/-- The first byte behind the area. -/
def stop (a : Area) : Nat := a.offset.toNat + a.size.toNat

def isEmpty (a : Area) : Bool := a.size == 0

/-- Whether two areas, regardless of their devices, share a byte. -/
def overlaps (a b : Area) : Bool :=
  !a.isEmpty && !b.isEmpty && a.start < b.stop && b.start < a.stop

/-- The order in which the areas of a device are swept: by offset, then by size. -/
def sweepOrder (a b : Area) : Bool :=
  a.offset < b.offset || (a.offset == b.offset && a.size ≤ b.size)

def rangeText (a : Area) : String := Hex.prefixed 0 a.start ++ ".." ++ Hex.prefixed 0 a.stop

end Area

/-- A breach of the layout rules. -/
inductive Problem where
  | overlap (device : UInt8) (a b : Area)
  | duplicateId (device id : UInt8) (names : List String)
deriving DecidableEq

def Problem.message : Problem → String
  | .overlap device a b =>
    s!"Device {device.toNat}: Area " ++ Text.quoted a.name ++ " " ++ a.rangeText ++
      " overlaps area " ++ Text.quoted b.name ++ " " ++ b.rangeText
  | .duplicateId device id names =>
    s!"Device {device.toNat}: Area ID {id.toNat} is used by multiple areas: " ++
      ", ".intercalate names

/-- What can be wrong with a layout file. -/
inductive Error where
  | layout (problems : List Problem)
  | parse
deriving DecidableEq

def Error.message : Error → String
  | .layout problems => "Invalid flash layout: " ++ "; ".intercalate (problems.map Problem.message)
  | .parse => "Failed to parse flash area list"

/-- Every 8-bit number in ascending order. -/
def octets : List UInt8 := (List.range 256).map UInt8.ofNat

/-- The repeated IDs among the areas of a device. -/
def duplicateIds (device : UInt8) (areas : List Area) : List Problem :=
  octets.filterMap fun id =>
    match areas.filter (·.id = id) with
    | a :: b :: more => some (.duplicateId device id ((a :: b :: more).map (·.name)))
    | _ => none

/-- The overlapping pairs of a list in sweep order: an area can only overlap those behind it that
start before it stops, and these stand next to it. -/
def sweep (device : UInt8) : List Area → List Problem
  | [] => []
  | a :: rest =>
    ((rest.takeWhile fun b => b.start < a.stop).filter fun b => !b.isEmpty && !a.isEmpty).map
      (.overlap device a) ++ sweep device rest

/-- The breaches on one device. -/
def deviceProblems (areas : List Area) (device : UInt8) : List Problem :=
  match areas.filter (·.device = device) with
  | [] => []
  | a :: more =>
    duplicateIds device (a :: more) ++ sweep device ((a :: more).mergeSort Area.sweepOrder)

def problems (areas : List Area) : List Problem := octets.flatMap (deviceProblems areas)

def validate (areas : List Area) : Except Error Unit :=
  match problems areas with
  | [] => .ok ()
  | p :: more => .error (.layout (p :: more))

end Firmware.Flash
