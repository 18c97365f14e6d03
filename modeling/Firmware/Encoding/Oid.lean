import Firmware.Bytes

/-!
# Object identifiers

An identifier names an algorithm or a curve by a path of numbers.  It is kept in its encoded form
(X.690, section 8.19), in which two identifiers are compared; the path is what is shown.
-/

namespace Firmware

/-- An object identifier in its encoded form. -/
structure Oid where
  body : Bytes
deriving DecidableEq, Inhabited

namespace Oid

/-- The base-128 digits of a number below `128 ^ fuel`, all but the last with the top bit set, in
front of the given bytes. -/
def arcOnto : Nat → Nat → Bytes → Bytes
  | 0, _, acc => acc
  | fuel + 1, n, acc =>
    if n = 0 then acc else arcOnto fuel (n / 128) (UInt8.ofNat (n % 128 + 128) :: acc)

/-- The encoding of a number of a path, which is below `2 ^ 35`. -/
def arc (n : Nat) : Bytes := arcOnto 4 (n / 128) [UInt8.ofNat (n % 128)]

/-- The identifier with the given path of two numbers or more. -/
def ofPath : List Nat → Oid
  | first :: second :: rest => ⟨UInt8.ofNat (40 * first + second) :: rest.flatMap arc⟩
  | _ => ⟨[]⟩

/-- The numbers behind the first byte.  `n` holds the `digits` digits of a number that is not
complete; a number has at most five of them and fits in 32 bits. -/
def arcs? (n digits : Nat) : Bytes → Option (List Nat)
  | [] => if digits = 0 then some [] else none
  | b :: r =>
    let n := n * 128 + b.toNat % 128
    if digits = 4 ∧ 16 ≤ b.toNat then none
    else if 128 ≤ b.toNat then arcs? n (digits + 1) r
    else (arcs? 0 0 r).map (n :: ·)

/-- The path of an identifier, if its encoding is well formed. -/
def path? (o : Oid) : Option (List Nat) :=
  match o.body with
  | [] => none
  | first :: rest =>
    if first.toNat < 120 then
      (arcs? 0 0 rest).map fun tail => first.toNat / 40 :: first.toNat % 40 :: tail
    else none

/-- The least number of bytes in an encoding that is read. -/
def minSize : Nat := 3

/-- The largest number of bytes in an encoding that is read. -/
def maxSize : Nat := 39

/-- The identifier with the given encoding. -/
def ofBytes? (body : Bytes) : Option Oid :=
  let o : Oid := ⟨body⟩
  if minSize ≤ body.length ∧ body.length ≤ maxSize ∧ o.path?.isSome then some o else none

/-- The path with dots between its numbers. -/
def toText (o : Oid) : String := ".".intercalate ((o.path?.getD []).map toString)

end Oid

end Firmware
