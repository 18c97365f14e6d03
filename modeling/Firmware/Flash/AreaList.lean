import Firmware.Flash.Layout
import Firmware.Toml.Document

/-!
# Layout files

A layout file is a TOML document with a list `areas`; without one the layout is empty.  An area is a
table with its five fields, in any order and among others, or an array that begins with them.
-/

namespace Firmware.Flash

open Toml

def below? (bound : Nat) : Value → Option Nat
  | .integer n => if 0 ≤ n ∧ n < bound then some n.toNat else none
  | _ => none

def text? : Value → Option String
  | .string s => some s
  | _ => none

def Area.ofFields? (name id device offset size : Value) : Option Area := do
  return {
    name := ← text? name
    id := UInt8.ofNat (← below? UInt8.size id)
    device := UInt8.ofNat (← below? UInt8.size device)
    offset := UInt32.ofNat (← below? UInt32.size offset)
    size := UInt32.ofNat (← below? UInt32.size size) }

def Area.ofEntries? (entries : Entries) : Option Area := do
  Area.ofFields? (← entries.lookup "name") (← entries.lookup "id") (← entries.lookup "device")
    (← entries.lookup "offset") (← entries.lookup "size")

def Area.ofValue? : Value → Option Area
  | .table _ entries => Area.ofEntries? entries
  | .array (name :: id :: device :: offset :: size :: _) =>
    Area.ofFields? name id device offset size
  | _ => none

def areasOf? (document : Entries) : Option (List Area) :=
  match document.lookup "areas" with
  | none => some []
  | some (.array items) => items.mapM Area.ofValue?
  | some (.rows tables) => tables.mapM Area.ofEntries?
  | some _ => none

def parseAreas (text : String) : Except Error (List Area) :=
  match (Toml.parse? text).bind areasOf? with
  | some areas => .ok areas
  | none => .error .parse

end Firmware.Flash
