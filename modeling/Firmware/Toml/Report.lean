import Firmware.Hex

/-!
# Reports

What the inspecting commands print: a TOML document of sections with plain values, a blank line
between each two sections.  A list with more than one number stands on several lines.
-/

namespace Firmware.Toml

/-- A value in a report. -/
inductive Plain where
  | text (s : String)
  | number (n : Nat)
  | truth (b : Bool)
  | numbers (ns : List Nat)

/-- A character of a text in double quotes. -/
def escapedChar (c : Char) : String :=
  if c = '"' then "\\\""
  else if c = '\\' then "\\\\"
  else if c.toNat < 0x20 ∨ c.toNat = 0x7f then
    "\\u00" ++ Hex.encode [UInt8.ofNat c.toNat]
  else String.singleton c

/-- The spelling of a value. -/
def Plain.render : Plain → String
  | text s => "\"" ++ String.join (s.toList.map escapedChar) ++ "\""
  | number n => toString n
  | truth b => if b then "true" else "false"
  | numbers [] => "[]"
  | numbers [n] => s!"[{n}]"
  | numbers ns => "[\n" ++ String.join (ns.map fun n => s!"    {n},\n") ++ "]"

/-- What stands above the entries of a section. -/
inductive Heading where
  /-- The entries of the document itself. -/
  | none
  | table (path : List String)
  /-- One of several tables under the same name. -/
  | row (path : List String)

/-- The line of a heading. -/
def Heading.render : Heading → String
  | none => ""
  | table path => "[" ++ ".".intercalate path ++ "]\n"
  | row path => "[[" ++ ".".intercalate path ++ "]]\n"

/-- A heading with keys and values. -/
structure Section where
  heading : Heading
  entries : List (String × Plain)

/-- The lines of a section. -/
def Section.render (s : Section) : String :=
  s.heading.render ++ String.join (s.entries.map fun (key, v) => key ++ " = " ++ v.render ++ "\n")

/-- The text of a report; without entries of its own the document starts with its first heading. -/
def renderReport (sections : List Section) : String :=
  let shown := sections.filter fun s =>
    match s.heading with
    | .none => !s.entries.isEmpty
    | _ => true
  "\n".intercalate (shown.map Section.render)

/-- The rows under a name; without rows the name stands among the entries of the document. -/
def rows (name : String) (tables : List (List (String × Plain))) :
    List (String × Plain) × List Section :=
  match tables with
  | [] => ([(name, .numbers [])], [])
  | _ => ([], tables.map fun entries => ⟨.row [name], entries⟩)

end Firmware.Toml
