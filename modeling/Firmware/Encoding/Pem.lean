import Firmware.Encoding.Base64

/-!
# Armoured blocks

Text that carries byte strings in labelled blocks (RFC 7468).  Reading has two steps.  The first
one collects the lines of each block, drops blanks around them and wraps the characters between the
two boundaries at 64 columns, whatever their lines were.  The second one reads the result strictly:
both boundaries agree, the label is made of printable words, and the characters are base64.
-/

namespace Firmware.Pem

/-- A byte string with the label that tells what it is. -/
structure Block where
  label : String
  content : Bytes
deriving DecidableEq

/-- Why armoured data cannot be read. -/
inductive Error where
  | missingEnd
  | malformed
deriving DecidableEq

/-- What a line that opens a block starts with. -/
def beginMark : Bytes := Bytes.ofText "-----BEGIN "

/-- What a line that closes a block starts with. -/
def endMark : Bytes := Bytes.ofText "-----END "

/-- What follows a label. -/
def delimiter : Bytes := Bytes.ofText "-----"

/-- The number of characters in a line between the boundaries. -/
def lineWidth : Nat := 64

/-- Whether data has a block, or the beginning of one, anywhere. -/
def isArmoured : Bytes → Bool
  | [] => false
  | b :: r => beginMark.isPrefixOf (b :: r) || isArmoured r

/-! ## Collecting blocks -/

/-- Whether a byte is an ASCII blank. -/
def isBlank (b : UInt8) : Bool := b == 9 || b == 10 || b == 12 || b == 13 || b == 32

/-- A line without the blanks around it. -/
def trimLine (line : Bytes) : Bytes :=
  ((line.dropWhile isBlank).reverse.dropWhile isBlank).reverse

/-- The lines of `current`, which is reversed, and the rest.  A text that ends with a line feed has
an empty last line. -/
def linesFrom (current : Bytes) : Bytes → List Bytes
  | [] => [current.reverse]
  | b :: r => if b = 10 then current.reverse :: linesFrom [] r else linesFrom (b :: current) r

/-- The lines of a text. -/
def lines (text : Bytes) : List Bytes := linesFrom [] text

/-- A block that is being collected: its opening lines and the characters after them. -/
structure Partial where
  head : Bytes := []
  /-- The lines of characters, the last one first. -/
  body : List Bytes := []
  isOpen : Bool := false

/-- The text of a block that ends with the given line. -/
def Partial.close (p : Partial) (line : Bytes) : Bytes :=
  p.head ++ (Bytes.chunks lineWidth p.body.reverse.flatten).flatMap (· ++ [10]) ++ line ++ [10]

/-- The texts of the blocks in the given lines, which are trimmed. -/
def collect (p : Partial) : List Bytes → Except Error (List Bytes)
  | [] => if p.isOpen then .error .missingEnd else .ok []
  | line :: rest =>
    if beginMark.isPrefixOf line then
      collect { p with head := p.head ++ line ++ [10], isOpen := true } rest
    else if endMark.isPrefixOf line then
      (collect {} rest).map (p.close line :: ·)
    else if p.isOpen then collect { p with body := line :: p.body } rest
    else collect p rest

/-! ## Reading a block -/

/-- The text behind the line end that it starts with. -/
def skipLineEnd? : Bytes → Option Bytes
  | 13 :: 10 :: r => some r
  | 13 :: r => some r
  | 10 :: r => some r
  | _ => none

/-- The text before the line end that it ends with. -/
def dropLineEnd? (text : Bytes) : Option Bytes :=
  match text.reverse with
  | 10 :: 13 :: r => some r.reverse
  | 10 :: r => some r.reverse
  | 13 :: r => some r.reverse
  | _ => none

/-- The text before an ending. -/
def dropEnding? (ending text : Bytes) : Option Bytes :=
  if ending.isSuffixOf text then some (text.take (text.length - ending.length)) else none

/-- Whether bytes are a label: printable characters other than a hyphen, with single blanks after
some of them. -/
def isLabel (afterBlank : Bool) : Bytes → Bool
  | [] => true
  | b :: r =>
    if b = 32 ∨ b = 9 then !afterBlank && isLabel true r
    else 0x21 ≤ b && b ≤ 0x7e && isLabel false r

theorem length_of_skipLineEnd? {text rest : Bytes} (h : skipLineEnd? text = some rest) :
    rest.length < text.length := by
  unfold skipLineEnd? at h
  split at h
  · obtain rfl := Option.some.inj h
    exact Nat.lt_succ_of_lt (Nat.lt_succ_self _)
  · obtain rfl := Option.some.inj h
    exact Nat.lt_succ_self _
  · obtain rfl := Option.some.inj h
    exact Nat.lt_succ_self _
  · cases h

/-- The characters of a text without the ends of its lines, all of which but the last one have the
full width. -/
def unwrap? (text : Bytes) : Option Bytes :=
  if text.length ≤ lineWidth then
    some (text.reverse.dropWhile (fun b => b == 10 || b == 13)).reverse
  else
    match _h : skipLineEnd? (text.drop lineWidth) with
    | none => none
    | some rest => (unwrap? rest).map (text.take lineWidth ++ ·)
termination_by text.length
decreasing_by
  have := length_of_skipLineEnd? _h
  simp only [List.length_drop] at this
  omega

/-- Reads the text of one block. -/
def decode? (text : Bytes) : Option Block := do
  if !beginMark.isPrefixOf text then none
  let text := text.drop beginMark.length
  let label := text.takeWhile (· != 45)
  let text := text.drop label.length
  if !(isLabel true label && delimiter.isPrefixOf text) then none
  let text ← skipLineEnd? (text.drop delimiter.length)
  let text := (dropLineEnd? text).getD text
  let text ← dropEnding? (endMark ++ label ++ delimiter) text
  let chars ← unwrap? (← dropLineEnd? text)
  let content ← Base64.decode? chars
  return ⟨String.ofList (label.map fun b => Char.ofNat b.toNat), content⟩

/-- Reads all blocks of an armoured text; what stands between them is skipped. -/
def decodeAll (data : Bytes) : Except Error (List Block) := do
  let texts ← collect {} (((lines data).map trimLine).filter (!·.isEmpty))
  texts.mapM fun text => (decode? text).elim (.error .malformed) .ok

/-! ## Writing a block -/

def encode (block : Block) : String :=
  let body := (Bytes.chunks lineWidth (Base64.encode block.content)).map fun line =>
    String.ofList (line.map fun b => Char.ofNat b.toNat) ++ "\n"
  s!"-----BEGIN {block.label}-----\n" ++ String.join body ++ s!"-----END {block.label}-----\n"

end Firmware.Pem
