/-!
# Blanks

The characters that trimming removes from the ends of a text: the Unicode white space, or only line
ends.
-/

namespace Firmware.Text

/-- Whether a character is Unicode white space. -/
def isBlank (c : Char) : Bool :=
  let n := c.toNat
  (9 ≤ n && n ≤ 13) || n == 0x20 || n == 0x85 || n == 0xa0 || n == 0x1680 ||
    (0x2000 ≤ n && n ≤ 0x200a) || n == 0x2028 || n == 0x2029 || n == 0x202f || n == 0x205f ||
    n == 0x3000

/-- The characters without the blanks at either end. -/
def trimChars (cs : List Char) : List Char :=
  ((cs.dropWhile isBlank).reverse.dropWhile isBlank).reverse

def trim (s : String) : String := String.ofList (trimChars s.toList)

/-- The text without the line ends at its end. -/
def trimLineEnds (s : String) : String :=
  String.ofList (s.toList.reverse.dropWhile fun c => c = '\r' ∨ c = '\n').reverse

/-- The pieces of a list between the separators; there is one more piece than separators. -/
def splitOn {α : Type} [BEq α] (sep : α) : List α → List (List α)
  | [] => [[]]
  | a :: as =>
    if a == sep then [] :: splitOn sep as
    else
      match splitOn sep as with
      | [] => [[a]]
      | piece :: pieces => (a :: piece) :: pieces

end Firmware.Text
