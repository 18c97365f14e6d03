import Firmware.Hex
import Firmware.Text.Blank

/-!
# Flag words

A flag word is 32 bits of which some have names.  Its text lists the names of the set bits in the
order of the table, then the remaining bits as one hexadecimal number, with bars between them.
`FlagTable.parse?` reads such a list in any order.  No bit is ever dropped: unnamed bits are kept
by both directions.
-/

namespace Firmware

/-- The named bits of a flag word, in the order in which they are written. -/
structure FlagTable where
  /-- The name that the diagnostic form puts in front. -/
  name : String
  bits : List (String × UInt32)

namespace FlagTable

/-- The names of the set bits, and the set bits that have no name. -/
def namesAndRest (t : FlagTable) (flags : UInt32) : List String × UInt32 :=
  t.bits.foldl
    (fun (names, rest) (name, bit) =>
      if rest &&& bit == bit then (names ++ [name], rest &&& ~~~bit) else (names, rest))
    ([], flags)

/-- The names of the set bits and the unnamed rest, separated by bars; empty for zero. -/
def toText (t : FlagTable) (flags : UInt32) : String :=
  let (names, rest) := t.namesAndRest flags
  " | ".intercalate (names ++ if rest = 0 then [] else [Hex.prefixed 0 rest.toNat])

/-- The diagnostic form, which writes zero as a number. -/
def toDebug (t : FlagTable) (flags : UInt32) : String :=
  t.name ++ "(" ++ (if flags = 0 then "0x0" else t.toText flags) ++ ")"

/-- The digits of a hexadecimal number, with an optional plus sign. -/
def hexWord? (cs : List Char) : Option UInt32 := do
  let n ← Hex.toNat? (if cs.head? = some '+' then cs.drop 1 else cs)
  if n < UInt32.size then some (UInt32.ofNat n) else none

/-- One entry of a flag text: a name, or a number after `0x`. -/
def entry? (t : FlagTable) (cs : List Char) : Option UInt32 :=
  match cs with
  | '0' :: 'x' :: digits => hexWord? digits
  | _ => t.bits.lookup (String.ofList cs)

/-- The flag word that a text denotes.  A blank text is zero; an empty entry is refused. -/
def parse? (t : FlagTable) (s : String) : Option UInt32 :=
  match Text.trimChars s.toList with
  | [] => some 0
  | cs =>
    (Text.splitOn '|' cs).foldlM
      (fun flags piece => (t.entry? (Text.trimChars piece)).map (flags ||| ·)) 0

end FlagTable

end Firmware
