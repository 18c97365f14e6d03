import Firmware.Hex

/-!
# TOML lexemes

Readers for the smallest parts of a document: blanks and comments, strings in their four spellings,
numbers, dates and times.  A reader takes what it wants from the front of the text or refuses; where
two readers are tried one after the other, the second starts where the first did.

Numbers: an underscore may stand between two digits, a leading zero is refused in decimal integers
and before the point of a float, and an integer has 64 bits with a sign.  A float that would round
to positive infinity is refused; a negative one is not.
-/

namespace Firmware.Toml

/-- Takes something from the front of a text or refuses. -/
abbrev Reader := StateT (List Char) Option

namespace Reader

/-- Takes a character of a class. -/
def char (p : Char → Bool) : Reader Char
  | c :: rest => if p c then some (c, rest) else none
  | [] => none

/-- Takes all characters of a class, up to the first other one. -/
def run (p : Char → Bool) : Reader (List Char) := fun text =>
  some (text.takeWhile p, text.dropWhile p)

/-- Takes exactly this text. -/
def literal (word : String) : Reader Unit := fun text =>
  if word.toList.isPrefixOf text then some ((), text.drop word.length) else none

def peek : Reader (Option Char) := fun text => some (text.head?, text)

/-- Repeats a reader until it refuses, at most once for each character of `bound`. -/
def manyWithin {α : Type} (r : Reader α) (bound : List Char) : Reader (List α) :=
  match bound with
  | [] => pure []
  | _ :: bound => do
    match ← optional r with
    | none => pure []
    | some a => return a :: (← manyWithin r bound)

/-- Repeats a reader, which takes at least one character each time, until it refuses. -/
def many {α : Type} (r : Reader α) : Reader (List α) := fun text => manyWithin r text text

/-- Things with a comma between each two. -/
def separated {α : Type} (r : Reader α) : Reader (List α) :=
  (do return (← r) :: (← many (literal "," *> r))) <|> pure []

/-- The text that a reader takes. -/
def spelling {α : Type} (r : Reader α) : Reader String := fun text =>
  (r text).map fun (_, rest) => (String.ofList (text.take (text.length - rest.length)), rest)

end Reader

open Reader

/-! ## Blanks and line ends -/

def isBlank (c : Char) : Bool := c = ' ' || c = '\t'

/-- What a comment and, quotes and backslashes apart, a string may hold: all but control
characters. -/
def isPlain (c : Char) : Bool := c = '\t' || (0x20 ≤ c.toNat && c.toNat ≠ 0x7f)

def blanks : Reader Unit := do let _ ← run isBlank

/-- A line feed, with or without a carriage return before it. -/
def newline : Reader Unit := literal "\n" <|> literal "\r\n"

def comment : Reader Unit := do
  literal "#"
  let _ ← run isPlain

def endOfText : Reader Unit
  | [] => some ((), [])
  | _ :: _ => none

/-- What may follow a key and value or a header on its line. -/
def lineEnd : Reader Unit := do
  blanks
  let _ ← optional comment
  newline <|> endOfText

/-- Blanks, line ends and comments, as they may stand inside an array. -/
def spread : Reader Unit := do
  let _ ← many ((do let _ ← char isBlank) <|> newline <|> (comment *> newline))

/-! ## Strings -/

/-- The character of a hexadecimal code point with exactly so many digits. -/
def codePoint (width : Nat) : Reader Char := fun text => do
  let digits := text.take width
  let n ← Hex.toNat? digits
  if digits.length = width ∧ n.isValidChar then some (Char.ofNat n, text.drop width) else none

/-- The character behind a backslash. -/
def escaped : Reader Char := do
  match ← char (fun _ => true) with
  | 'b' => return Char.ofNat 8
  | 't' => return '\t'
  | 'n' => return '\n'
  | 'f' => return Char.ofNat 12
  | 'r' => return '\r'
  | '"' => return '"'
  | '\\' => return '\\'
  | 'u' => codePoint 4
  | 'U' => codePoint 8
  | _ => failure

/-- A string in double quotes on one line. -/
def basicString : Reader String := do
  literal "\""
  let cs ← many (char (fun c => isPlain c && c ≠ '"' && c ≠ '\\') <|> (literal "\\" *> escaped))
  literal "\""
  return String.ofList cs

/-- A string in single quotes on one line, without escapes. -/
def literalString : Reader String := do
  literal "'"
  let cs ← run (fun c => isPlain c && c ≠ '\'')
  literal "'"
  return String.ofList cs

/-- One or two quotes inside a string over several lines. -/
def innerQuotes (quote : Char) : Reader (List Char) := do
  let quotes ← run (· = quote)
  if 1 ≤ quotes.length ∧ quotes.length ≤ 2 then return quotes else failure

/-- The three quotes that close a string over several lines, and up to two before them that belong
to the string. -/
def closingQuotes (quote : Char) : Reader (List Char) := do
  let quotes ← run (· = quote)
  if 3 ≤ quotes.length ∧ quotes.length ≤ 5 then return quotes.drop 3 else failure

/-- A backslash at the end of a line, which takes all blanks and line ends behind it away. -/
def joinedLines : Reader (List Char) := do
  literal "\\"
  blanks
  newline
  let _ ← many ((do let _ ← char isBlank) <|> newline)
  return []

/-- A string over several lines: its pieces between three quotes; a line end right after the opening
quotes is no part of it. -/
def linesBetween (quote : Char) (piece : Reader (List Char)) : Reader String := do
  literal (String.ofList [quote, quote, quote])
  let _ ← optional newline
  let pieces ← many (piece <|> (newline *> pure ['\n']) <|> innerQuotes quote)
  return String.ofList (pieces.flatten ++ (← closingQuotes quote))

/-- A string over several lines with escapes. -/
def basicLines : Reader String :=
  linesBetween '"'
    ((do return [← char fun c => isPlain c && c ≠ '"' && c ≠ '\\']) <|> joinedLines <|>
      (do literal "\\"; return [← escaped]))

/-- A string over several lines without escapes. -/
def literalLines : Reader String :=
  linesBetween '\'' (do return [← char fun c => isPlain c && c ≠ '\''])

/-- A string in any of its spellings. -/
def anyString : Reader String := basicLines <|> basicString <|> literalLines <|> literalString

/-! ## Numbers -/

def isDigit (c : Char) : Bool := '0' ≤ c && c ≤ '9'

/-- Further digits of a class, each with or without an underscore before it. -/
def moreDigits (p : Char → Bool) : Reader (List Char) :=
  many ((do let _ ← optional (literal "_"); char p))

/-- Digits of a class, the first of which may be zero. -/
def digits (p : Char → Bool) : Reader (List Char) := do
  return (← char p) :: (← moreDigits p)

/-- The digits of a decimal number without leading zeros. -/
def wholeDigits : Reader (List Char) :=
  (do return [← char (· = '0')]) <|> digits isDigit

/-- A sign; true for minus. -/
def sign : Reader Bool := (literal "-" *> pure true) <|> (literal "+" *> pure false) <|> pure false

/-- The number that digits of a base denote. -/
def ofDigits (base : Nat) (ds : List Char) : Nat :=
  ds.foldl (fun n d => base * n + (Hex.value? d).getD 0) 0

/-- An integer of 64 bits. -/
def inRange (n : Int) : Reader Int :=
  if -0x8000000000000000 ≤ n ∧ n < 0x8000000000000000 then pure n else failure

/-- An integer in a base of its own, behind its mark. -/
def marked (mark : String) (base : Nat) : Reader Int := do
  literal mark
  let ds ← digits fun c => (Hex.value? c).any (· < base)
  inRange (ofDigits base ds)

def integer : Reader Int :=
  marked "0x" 16 <|> marked "0o" 8 <|> marked "0b" 2 <|> do
    let negative ← sign
    let n : Int := ofDigits 10 (← wholeDigits)
    inRange (if negative then -n else n)

/-- The digits behind the point. -/
def fraction : Reader (List Char) := literal "." *> digits isDigit

/-- The power of ten behind the letter. -/
def exponent : Reader Int := do
  literal "e" <|> literal "E"
  let negative ← sign
  let n : Int := ofDigits 10 (← digits isDigit)
  return if negative then -n else n

/-- Whether digits times a power of ten round to infinity in double precision: whether they reach
the middle between the largest finite number and the power of two behind it. -/
def isHuge (ds : List Char) (power : Int) : Bool :=
  let significant := ds.dropWhile (· = '0')
  let width : Int := significant.length + power
  let limit := Nat.pow 2 1024 - Nat.pow 2 970
  if significant.isEmpty || width < 309 then false
  else if 309 < width then true
  else if 0 ≤ power then limit ≤ ofDigits 10 significant * Nat.pow 10 power.toNat
  else limit * Nat.pow 10 (-power).toNat ≤ ofDigits 10 significant

/-- A number with a fraction or an exponent. -/
def decimal : Reader Unit := do
  let negative ← sign
  let whole ← wholeDigits
  let (parts, power) ←
    (do return ([], ← exponent)) <|>
      (do let f ← fraction; return (f, (← optional exponent).getD 0))
  if !negative && isHuge (whole ++ parts) (power - parts.length) then failure

/-- A float, infinity or not a number. -/
def float : Reader Unit := decimal <|> do
  let _ ← sign
  literal "inf" <|> literal "nan"

/-! ## Dates and times -/

/-- A decimal number of a fixed width, within bounds. -/
def fixed (width low high : Nat) : Reader Nat := fun text =>
  let ds := text.take width
  let n := ofDigits 10 ds
  if ds.length = width ∧ ds.all isDigit ∧ low ≤ n ∧ n ≤ high then some (n, text.drop width)
  else none

/-- The number of days of a month. -/
def daysOf (year month : Nat) : Nat :=
  if month = 2 then
    if year % 4 = 0 ∧ (year % 100 ≠ 0 ∨ year % 400 = 0) then 29 else 28
  else if month ∈ [4, 6, 9, 11] then 30 else 31

/-- A day of the calendar. -/
def date : Reader Unit := do
  let year ← fixed 4 0 9999
  literal "-"
  let month ← fixed 2 1 12
  literal "-"
  let _ ← fixed 2 1 (daysOf year month)

/-- A time of day; the second may be a leap second. -/
def time : Reader Unit := do
  let _ ← fixed 2 0 23
  literal ":"
  let _ ← fixed 2 0 59
  literal ":"
  let _ ← fixed 2 0 60
  let _ ← optional (literal "." *> char isDigit *> run isDigit)

/-- The distance from universal time. -/
def offset : Reader Unit :=
  literal "Z" <|> literal "z" <|> do
    literal "+" <|> literal "-"
    let _ ← fixed 2 0 23
    literal ":"
    let _ ← fixed 2 0 59

/-- A date, a time, or both with or without an offset. -/
def moment : Reader Unit :=
  (do
    date
    let _ ← optional do
      let _ ← char (· ∈ ['T', 't', ' '])
      time
      let _ ← optional offset) <|> time

end Firmware.Toml
