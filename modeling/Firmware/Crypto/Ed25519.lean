import Firmware.Crypto.Modular
import Firmware.Crypto.Sha512

/-!
# Ed25519

Signatures on the twisted Edwards curve of RFC 8032.  Points are kept in extended coordinates, where
`(x, y, z, t)` stands for `(x / z, y / z)` and `t = x y / z`.

A public key may be any encoding that decompresses, also one whose `y` is not reduced and one of a
point of small order.  A signature is checked by comparing the encoding of the recomputed point with
its first half, so that half is never decoded.
-/

namespace Firmware.Crypto.Ed25519

/-- The size of the field. -/
def p : Nat := Nat.pow 2 255 - 19

/-- The order of the base point. -/
def order : Nat := Nat.pow 2 252 + 27742317777372353535851937790883648493

/-- The constant `d` of the curve equation `-x² + y² = 1 + d x² y²`. -/
def d : Nat := 37095705934669439343138083508754565189542113879843219016388785533085940283555

/-- A square root of minus one. -/
def sqrtMinusOne : Nat :=
  19681161376707505956807079304988542015446066515923890162744021073123829784752

/-- A point in extended coordinates. -/
structure Point where
  x : Nat
  y : Nat
  z : Nat
  t : Nat

namespace Point

def zero : Point := ⟨0, 1, 1, 0⟩

def base : Point :=
  let x := 15112221349535400772501151409588531511454012693041857206046113283949847762202
  let y := 46316835694926478169428394003475163141307993866256225615783033603165251855960
  ⟨x, y, 1, x * y % p⟩

def add (a b : Point) : Point :=
  let k := (a.y + p - a.x) * (b.y + p - b.x) % p
  let l := (a.y + a.x) * (b.y + b.x) % p
  let m := 2 * a.t * b.t % p * d % p
  let n := 2 * a.z * b.z % p
  let e := l + p - k
  let f := n + p - m
  let g := n + m
  let h := l + k
  ⟨e * f % p, g * h % p, f * g % p, e * h % p⟩

def neg (a : Point) : Point := { a with x := (p - a.x) % p, t := (p - a.t) % p }

/-- `k` times a point added to `acc`, where `k` has at most `bits` bits. -/
def mulFrom : Nat → Nat → Point → Point → Point
  | 0, _, _, acc => acc
  | bits + 1, k, a, acc => mulFrom bits (k / 2) (a.add a) (if k % 2 = 1 then acc.add a else acc)

def mul (k : Nat) (a : Point) : Point := mulFrom (Nat.log2 k + 1) k a zero

/-- The encoding: `y` with the parity of `x` in its top bit. -/
def encode (a : Point) : Bytes :=
  let i := Modular.inverse a.z p
  let x := a.x * i % p
  let y := a.y * i % p
  Bytes.ofNatLE 32 (y + Nat.pow 2 255 * (x % 2))

/-- A square root of `u / v`, if there is one. -/
def sqrtRatio? (u v : Nat) : Option Nat :=
  let x := u * Nat.pow v 3 % p * Modular.pow (u * Nat.pow v 7 % p) ((p - 5) / 8) p % p
  let check := v * x % p * x % p
  if check = u then some x
  else if check = (p - u) % p then some (x * sqrtMinusOne % p)
  else none

/-- The point that an encoding denotes; the `y` in it need not be reduced. -/
def decode? (bytes : Bytes) : Option Point := do
  let n := Bytes.toNatLE bytes
  let y := n % Nat.pow 2 255 % p
  let x ← sqrtRatio? ((y * y + p - 1) % p) ((d * (y * y % p) + 1) % p)
  let x := if x % 2 = n / Nat.pow 2 255 then x else (p - x) % p
  return ⟨x, y, 1, x * y % p⟩

end Point

/-- The secret scalar and the prefix of the nonce hash that a seed yields. -/
def expand (seed : Bytes) : Nat × Bytes :=
  let h := sha512 seed
  let n := Bytes.toNatLE (h.take 32)
  (n % Nat.pow 2 254 / 8 * 8 + Nat.pow 2 254, h.drop 32)

def publicKey (seed : Bytes) : Bytes := (Point.mul (expand seed).1 .base).encode

/-- The number that a digest denotes modulo the group order. -/
def reduce (digest : Bytes) : Nat := Bytes.toNatLE digest % order

def sign (seed message : Bytes) : Bytes :=
  let (s, noncePrefix) := expand seed
  let key := (Point.mul s .base).encode
  let r := reduce (sha512 (noncePrefix ++ message))
  let commitment := (Point.mul r .base).encode
  let k := reduce (sha512 (commitment ++ key ++ message))
  commitment ++ Bytes.ofNatLE 32 ((r + k * s) % order)

/-- Whether a public key is acceptable, that is, denotes a point. -/
def isKey (key : Bytes) : Bool := key.length == 32 && (Point.decode? key).isSome

/-- Whether 64 bytes are a signature of a message under a public key. -/
def verify (key message signature : Bytes) : Bool :=
  match Point.decode? key with
  | none => false
  | some a =>
    let commitment := signature.take 32
    let s := Bytes.toNatLE (signature.drop 32)
    let k := reduce (sha512 (commitment ++ key ++ message))
    s < order && ((Point.mul s .base).add (Point.mul k a.neg)).encode == commitment

end Firmware.Crypto.Ed25519
