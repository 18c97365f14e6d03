import Firmware.Hex

/-!
# Options on a command line

The grammar of command lines.  An option is written `--name value`, `--name=value`, `-n value`,
`-nvalue` or `-n=value`; a flag is written `--name` and has no value.  A word that starts with a
dash is never taken as the value of the word before it, except the dash alone.  `scan` stops at the
first word that is no option, which is the name of a subcommand or one word too many.
-/

namespace Firmware.Command

/-- An option that a command knows. -/
structure OptionSpec where
  name : String
  /-- The letter of its short form. -/
  letter : Option Char := none
  takesValue : Bool := true
  /-- Whether it may be given several times. -/
  repeats : Bool := false

/-- The options given, by name and in order; a flag has an empty value. -/
structure Options where
  given : List (String × String)

/-- What a word says. -/
inductive Word where
  /-- An option with its value, or a flag. -/
  | whole (name value : String)
  /-- An option, the value of which is the next word. -/
  | open (name : String)
  /-- No option. -/
  | plain
  /-- Written like an option, but none. -/
  | unknown

/-- The word behind the dashes up to an equals sign, and the value behind that. -/
def splitValue (cs : List Char) : String × Option String :=
  let name := String.ofList (cs.takeWhile (· ≠ '='))
  match cs.dropWhile (· ≠ '=') with
  | [] => (name, none)
  | _ :: value => (name, some (String.ofList value))

/-- Reads the long form of an option, without its dashes. -/
def readLong (specs : List OptionSpec) (cs : List Char) : Word :=
  let (name, value) := splitValue cs
  match specs.find? (·.name = name), value with
  | none, _ => .unknown
  | some spec, none => if spec.takesValue then .open spec.name else .whole spec.name ""
  | some spec, some value => if spec.takesValue then .whole spec.name value else .unknown

/-- Reads the short form of an option, without its dash. -/
def readShort (specs : List OptionSpec) (letter : Char) (rest : List Char) : Word :=
  match specs.find? (·.letter = some letter), rest with
  | none, _ => .unknown
  | some spec, [] => .open spec.name
  | some spec, '=' :: value => .whole spec.name (String.ofList value)
  | some spec, value => .whole spec.name (String.ofList value)

/-- Reads a word. -/
def readWord (specs : List OptionSpec) (word : String) : Word :=
  match word.toList with
  | '-' :: '-' :: c :: cs => readLong specs (c :: cs)
  | '-' :: '-' :: [] => .plain
  | '-' :: c :: cs => readShort specs c cs
  | _ => .plain

/-- Whether a word can be the value of the option before it. -/
def isValue (word : String) : Bool :=
  match word.toList with
  | '-' :: _ :: _ => false
  | _ => true

/-- The options at the front of a command line and the words behind them. -/
def scan (specs : List OptionSpec) : List String → Option (List (String × String) × List String)
  | [] => some ([], [])
  | word :: rest =>
    match readWord specs word with
    | .plain => some ([], word :: rest)
    | .unknown => none
    | .whole name value => (scan specs rest).map fun (given, more) => ((name, value) :: given, more)
    | .open name =>
      match rest with
      | [] => none
      | value :: rest =>
        if isValue value then
          (scan specs rest).map fun (given, more) => ((name, value) :: given, more)
        else none

namespace Options

def all (o : Options) (name : String) : List String :=
  (o.given.filter (·.1 = name)).map (·.2)

def has (o : Options) (name : String) : Bool := !(o.all name).isEmpty

/-- The value of an option as `read` understands it, or `default`; none if it is not understood. -/
def getD {α : Type} (o : Options) (name : String) (read : String → Option α) (default : α) :
    Option α :=
  match o.all name with
  | [] => some default
  | value :: _ => read value

/-- The value of an option that may be missing; none if it is not understood. -/
def optional {α : Type} (o : Options) (name : String) (read : String → Option α) :
    Option (Option α) :=
  o.getD name (fun s => (read s).map some) none

/-- The value of an option that must be given. -/
def required {α : Type} (o : Options) (name : String) (read : String → Option α) : Option α :=
  (o.all name).head?.bind read

/-- The options at the front of a command line, each at most once unless it repeats, and the words
behind them. -/
def parse? (specs : List OptionSpec) (words : List String) : Option (Options × List String) := do
  let (given, rest) ← scan specs words
  let o : Options := ⟨given⟩
  if specs.all fun spec => spec.repeats || (o.all spec.name).length ≤ 1 then some (o, rest)
  else none

end Options

/-! ## Values -/

/-- A path, which is not empty. -/
def path? (s : String) : Option String := if s.isEmpty then none else some s

/-- Any text. -/
def text? (s : String) : Option String := some s

/-- A decimal number without a sign. -/
def decimal? : List Char → Option Nat
  | [] => none
  | cs => cs.foldlM (fun n c =>
      if '0' ≤ c ∧ c ≤ '9' then some (10 * n + (c.toNat - 48)) else none) 0

/-- The digits behind a plus sign, if there is one. -/
def unsigned : List Char → List Char
  | '+' :: cs => cs
  | cs => cs

/-- A number below a bound, decimal or with `0x` hexadecimal; a plus sign may stand before the
digits. -/
def number? (bound : Nat) (s : String) : Option Nat := do
  let n ←
    match s.toList with
    | '0' :: 'x' :: cs | '0' :: 'X' :: cs => Hex.toNat? (unsigned cs)
    | cs => decimal? (unsigned cs)
  if n < bound then some n else none

/-- A byte in plain decimal digits, with or without a sign. -/
def byte? (s : String) : Option UInt8 := do
  let n ←
    match s.toList with
    | '-' :: cs => (decimal? cs).filter (· = 0)
    | cs => decimal? (unsigned cs)
  if n < UInt8.size then some (UInt8.ofNat n) else none

end Firmware.Command
