/-!
# TOML values

A document is a table: a list of keys with their values, each key at most once.  How a table was
written decides what a later line may still do with it, so a table carries its form:

    { a = 1 }        closed: nothing can be added
    [a]              header: the lines below it are its entries
    [a.b]            `a` is implied, until a header of its own follows
    a.b = 1          `a` is dotted: only further dotted keys add to it

`Entries.change` walks from a table along a path of keys and creates what is missing on the way;
`Entries.put`, `Entries.openTable` and `Entries.openRow` are the three things a line can ask for.
-/

namespace Firmware.Toml

/-- How a table was written. -/
inductive Form where
  | closed
  | header
  | implied
  | dotted
deriving DecidableEq

/-- A value; floats and dates keep their spelling. -/
inductive Value where
  | string (text : String)
  | integer (n : Int)
  | float (spelling : String)
  | boolean (b : Bool)
  | moment (spelling : String)
  | array (items : List Value)
  | table (form : Form) (entries : List (String × Value))
  | rows (tables : List (List (String × Value)))

/-- The entries of a table in the order of their first appearance. -/
abbrev Entries := List (String × Value)

namespace Entries

/-- Gives a key a value, in place of the one it has. -/
def set (key : String) (value : Value) : Entries → Entries
  | [] => [(key, value)]
  | (k, v) :: more => if k = key then (k, value) :: more else (k, v) :: set key value more

/-- Whether a path may lead through a table of this form. -/
def mayEnter (byDots : Bool) : Form → Bool
  | .closed => false
  | .header => !byDots
  | .implied | .dotted => true

/-- Changes the table at the end of a path; a path through rows goes on in the last of them. -/
def change (byDots : Bool) (edit : Form → Entries → Option Entries) :
    List String → Form → Entries → Option Entries
  | [], form, entries => edit form entries
  | key :: path, _, entries => do
    let child ←
      match entries.lookup key with
      | none =>
        let form : Form := if byDots then .dotted else .implied
        (change byDots edit path form []).map (.table form)
      | some (.table form inner) =>
        if mayEnter byDots form then (change byDots edit path form inner).map (.table form)
        else none
      | some (.rows tables) =>
        match tables.reverse with
        | [] => none
        | last :: front =>
          (change byDots edit path .header last).map fun row => .rows (row :: front).reverse
      | some _ => none
    return set key child entries

/-- Adds a key and value that the table does not have yet. -/
def add (key : String) (value : Value) (entries : Entries) : Option Entries :=
  match entries.lookup key with
  | none => some (entries ++ [(key, value)])
  | some _ => none

/-- Adds a value under a key with dots; tables that a header made take no entry through dots. -/
def put (path : List String) (key : String) (value : Value) (entries : Entries) : Option Entries :=
  change true (fun form inner =>
    if path.isEmpty || form = .dotted then add key value inner else none) path .header entries

/-- Opens the table of a header: a new one, or one that longer headers have implied. -/
def openTable (path : List String) (key : String) (entries : Entries) : Option Entries :=
  change false (fun _ inner =>
    match inner.lookup key with
    | none => some (set key (.table .header []) inner)
    | some (.table .implied old) => some (set key (.table .header old) inner)
    | some _ => none) path .header entries

/-- Opens a further row under a header in double brackets. -/
def openRow (path : List String) (key : String) (entries : Entries) : Option Entries :=
  change false (fun _ inner =>
    match inner.lookup key with
    | none => some (set key (.rows [[]]) inner)
    | some (.rows tables) => some (set key (.rows (tables ++ [[]])) inner)
    | some _ => none) path .header entries

end Entries

end Firmware.Toml
