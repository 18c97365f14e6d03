import Firmware.Toml.Lexeme
import Firmware.Toml.Value

/-!
# TOML documents

The reader of whole documents, TOML 1.0.  A document is a sequence of lines, each a key with its
value, a header or neither; the lines are put together by `Entries.put`, `Entries.openTable` and
`Entries.openRow`, and a line that contradicts the lines before it makes the document invalid.

Arrays and tables in braces nest less than eighty deep, and a key has fewer than eighty parts.
-/

namespace Firmware.Toml

open Reader

/-- A key with dots: the tables it leads through, and the key in the last of them. -/
structure Key where
  path : List String
  name : String

/-- The characters of a key without quotes. -/
def isBare (c : Char) : Bool :=
  isDigit c || ('a' ≤ c && c ≤ 'z') || ('A' ≤ c && c ≤ 'Z') || c = '_' || c = '-'

/-- One part of a key. -/
def keyPart : Reader String := do
  match ← peek with
  | some '"' => basicString
  | some '\'' => literalString
  | _ => return String.ofList ((← char isBare) :: (← run isBare))

/-- A key with dots and blanks around its parts. -/
def key : Reader Key := do
  let part := blanks *> keyPart <* blanks
  let first ← part
  let more ← many (literal "." *> part)
  if 79 ≤ more.length then failure
  let parts := first :: more
  match parts.reverse with
  | [] => failure
  | name :: path => return ⟨path.reverse, name⟩

/-- A value without parts. -/
def scalar : Reader Value :=
  (do return .string (← anyString)) <|>
    (do return .moment (← spelling moment)) <|>
    (do return .float (← spelling float)) <|>
    (do return .integer (← integer)) <|>
    (literal "true" *> pure (.boolean true)) <|>
    (literal "false" *> pure (.boolean false))

/-- An array; a comma may stand behind its last item. -/
def array (item : Reader Value) : Reader Value := do
  literal "["
  let items ← separated (spread *> item <* spread)
  if !items.isEmpty then
    let _ ← optional (literal ",")
  spread
  literal "]"
  return .array items

/-- A table in braces on one line. -/
def braces (item : Reader Value) : Reader Value := do
  literal "\x7b"
  let entries ← separated do
    let k ← key
    literal "="
    return (k, ← blanks *> item <* blanks)
  blanks
  literal "\x7d"
  return .table .closed
    (← (entries.foldlM (fun table (k, v) => Entries.put k.path k.name v table) [] : Option Entries))

/-- A value with arrays and braces nested up to a depth. -/
def value : Nat → Reader Value
  | 0 => scalar
  | depth + 1 => scalar <|> array (value depth) <|> braces (value depth)

/-- What a line of a document says. -/
inductive Line where
  | blank
  | entry (key : Key) (value : Value)
  | table (key : Key)
  | row (key : Key)

/-- One line with its line end. -/
def line : Reader Line := do
  blanks
  match ← peek with
  | none => failure
  | some c =>
    let content ←
      if c = '#' || c = '\n' || c = '\r' then pure .blank
      else
        (do return .row (← literal "[[" *> key <* literal "]]")) <|>
          (do return .table (← literal "[" *> key <* literal "]")) <|>
          (do
            let k ← key
            literal "="
            blanks
            return .entry k (← value 79))
    lineEnd
    return content

/-- All lines of a text, behind a byte order mark if there is one. -/
def lines? (text : String) : Option (List Line) := do
  let reader : Reader (List Line) := do
    let _ ← optional (char (· = Char.ofNat 0xfeff))
    many line <* blanks
  match ← reader text.toList with
  | (ls, []) => some ls
  | _ => none

/-- The document so far and the table that the next keys belong to. -/
structure Draft where
  root : Entries := []
  current : List String := []

/-- Adds a line to a document. -/
def Draft.add? (draft : Draft) : Line → Option Draft
  | .blank => some draft
  | .entry k v => do
    let root ←
      Entries.change false (fun _ table => Entries.put k.path k.name v table) draft.current .header
        draft.root
    return ⟨root, draft.current⟩
  | .table k => do return ⟨← Entries.openTable k.path k.name draft.root, k.path ++ [k.name]⟩
  | .row k => do return ⟨← Entries.openRow k.path k.name draft.root, k.path ++ [k.name]⟩

/-- The entries of a document. -/
def parse? (text : String) : Option Entries := do
  return (← (← lines? text).foldlM Draft.add? {}).root

end Firmware.Toml
