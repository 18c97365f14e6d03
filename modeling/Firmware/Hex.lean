import Firmware.Bytes

/-!
# Hexadecimal text

Lowercase hexadecimal of byte strings and numbers, and the two readers the command line and the
flag texts need.  `decode?` takes both letter cases and refuses an odd number of digits.
-/

namespace Firmware.Hex

/-- The lowercase digit of a value below 16. -/
def digit (n : Nat) : Char :=
  if n < 10 then Char.ofNat (48 + n) else Char.ofNat (87 + n)

/-- The value of a hexadecimal digit of either case. -/
def value? (c : Char) : Option Nat :=
  if '0' ≤ c ∧ c ≤ '9' then some (c.toNat - 48)
  else if 'a' ≤ c ∧ c ≤ 'f' then some (c.toNat - 87)
  else if 'A' ≤ c ∧ c ≤ 'F' then some (c.toNat - 55)
  else none

/-- Two digits for each byte. -/
def encodeChars (bs : Bytes) : List Char :=
  bs.flatMap fun b => [digit (b.toNat / 16), digit (b.toNat % 16)]

def encode (bs : Bytes) : String := String.ofList (encodeChars bs)

/-- Reads digits in pairs. -/
def decodeChars? : List Char → Option Bytes
  | [] => some []
  | [_] => none
  | h :: l :: r => do
    let high ← value? h
    let low ← value? l
    let rest ← decodeChars? r
    return UInt8.ofNat (16 * high + low) :: rest

/-- The bytes that a hexadecimal text of either case denotes. -/
def decode? (s : String) : Option Bytes := decodeChars? s.toList

/-- The hexadecimal digits of a number without leading zeros; zero has the one digit `0`. -/
def ofNat (n : Nat) : String := String.ofList (Nat.toDigits 16 n)

/-- A number as `0x` and its digits, filled up with zeros to at least `width` digits. -/
def prefixed (width n : Nat) : String :=
  let digits := Nat.toDigits 16 n
  "0x" ++ String.ofList (List.replicate (width - digits.length) '0' ++ digits)

/-- The number that a non-empty sequence of digits of either case denotes. -/
def toNat? : List Char → Option Nat
  | [] => none
  | cs => cs.foldlM (fun n c => (value? c).map (16 * n + ·)) 0

end Firmware.Hex
