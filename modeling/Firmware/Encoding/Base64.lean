import Firmware.Bytes

/-!
# Base64

The standard alphabet with padding (RFC 4648, section 4).  Reading is strict: it accepts exactly
what writing produces, so the padding must be there and the bits that it stands for must be zero.
-/

namespace Firmware.Base64

/-- The character that stands for missing bytes. -/
def pad : UInt8 := 61

/-- The character for a value below 64. -/
def char (v : Nat) : UInt8 :=
  UInt8.ofNat
    (if v < 26 then v + 65 else if v < 52 then v + 71 else if v < 62 then v - 4
      else if v = 62 then 43 else 47)

/-- The value of a character of the alphabet. -/
def value? (c : UInt8) : Option Nat :=
  let n := c.toNat
  if 65 ≤ n ∧ n ≤ 90 then some (n - 65)
  else if 97 ≤ n ∧ n ≤ 122 then some (n - 71)
  else if 48 ≤ n ∧ n ≤ 57 then some (n + 4)
  else if n = 43 then some 62
  else if n = 47 then some 63
  else none

/-- The characters for a byte string. -/
def encode : Bytes → Bytes
  | [] => []
  | [a] => [char (a.toNat / 4), char (a.toNat % 4 * 16), pad, pad]
  | [a, b] =>
    [char (a.toNat / 4), char (a.toNat % 4 * 16 + b.toNat / 16), char (b.toNat % 16 * 4), pad]
  | a :: b :: c :: r =>
    char (a.toNat / 4) :: char (a.toNat % 4 * 16 + b.toNat / 16) ::
      char (b.toNat % 16 * 4 + c.toNat / 64) :: char (c.toNat % 64) :: encode r

/-- The bytes of the last four characters. -/
def decodeLast? (a b c d : UInt8) : Option Bytes := do
  let x ← value? a
  let y ← value? b
  let first := UInt8.ofNat (x * 4 + y / 16)
  if c = pad ∧ d = pad then
    if y % 16 = 0 then some [first] else none
  else
    let z ← value? c
    let second := UInt8.ofNat (y % 16 * 16 + z / 4)
    if d = pad then
      if z % 4 = 0 then some [first, second] else none
    else
      let w ← value? d
      some [first, second, UInt8.ofNat (z % 4 * 64 + w)]

/-- The bytes before `acc`, which is reversed, and those that the characters stand for. -/
def decodeOnto? (acc : Bytes) : Bytes → Option Bytes
  | [] => some acc.reverse
  | [a, b, c, d] => (decodeLast? a b c d).map (acc.reverse ++ ·)
  | a :: b :: c :: d :: r => do
    let x ← value? a
    let y ← value? b
    let z ← value? c
    let w ← value? d
    decodeOnto? (UInt8.ofNat (z % 4 * 64 + w) :: UInt8.ofNat (y % 16 * 16 + z / 4) ::
      UInt8.ofNat (x * 4 + y / 16) :: acc) r
  | _ => none

/-- The byte string that the characters stand for. -/
def decode? (chars : Bytes) : Option Bytes := decodeOnto? [] chars

end Firmware.Base64
