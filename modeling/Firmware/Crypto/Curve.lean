import Firmware.Bytes
import Firmware.Crypto.Modular

/-!
# Elliptic curves in Weierstrass form

The curves P-224 and P-256 (SP 800-186) and their group law.  Sums are computed in Jacobian
coordinates, where `(x, y, z)` stands for the affine point `(x / z², y / z³)` and `z = 0` for the
point at infinity.  Points are written and read in the forms of SEC 1, section 2.3.
-/

namespace Firmware.Crypto

/-- A curve `y² = x³ - 3 x + b` over a prime field with a base point of prime order. -/
structure Curve where
  /-- The size of the field. -/
  p : Nat
  b : Nat
  /-- The order of the base point. -/
  n : Nat
  baseX : Nat
  baseY : Nat
  /-- The size of a field element in bytes; it is that of a scalar too. -/
  fieldSize : Nat
  /-- A number that is no square in the field. -/
  nonSquare : Nat

namespace Curve

def p224 : Curve where
  p := 0xffffffffffffffffffffffffffffffff000000000000000000000001
  b := 0xb4050a850c04b3abf54132565044b0b7d7bfd8ba270b39432355ffb4
  n := 0xffffffffffffffffffffffffffff16a2e0b8f03e13dd29455c5c2a3d
  baseX := 0xb70e0cbd6bb4bf7f321390b94a03c1d356c21122343280d6115c1d21
  baseY := 0xbd376388b5f723fb4c22dfe6cd4375a05a07476444d5819985007e34
  fieldSize := 28
  nonSquare := 11

def p256 : Curve where
  p := 0xffffffff00000001000000000000000000000000ffffffffffffffffffffffff
  b := 0x5ac635d8aa3a93e7b3ebbd55769886bc651d06b0cc53b0f63bce3c3e27d2604b
  n := 0xffffffff00000000ffffffffffffffffbce6faada7179e84f3b9cac2fc632551
  baseX := 0x6b17d1f2e12c4247f8bce6e563a440f277037d812deb33a0f4a13945d898c296
  baseY := 0x4fe342e2fe1a7f9b8ee7eb4a7c0f9e162bce33576b315ececbb6406837bf51f5
  fieldSize := 32
  nonSquare := 3

/-- A point other than the point at infinity, with reduced coordinates. -/
structure Point where
  x : Nat
  y : Nat
deriving DecidableEq, Inhabited

/-- A point in Jacobian coordinates. -/
structure Jacobian where
  x : Nat
  y : Nat
  z : Nat

/-- Whether a pair of reduced coordinates satisfies the equation of the curve. -/
def contains (c : Curve) (x y : Nat) : Bool :=
  y * y % c.p == (x * x * x + (c.p - 3) * x + c.b) % c.p

def base (c : Curve) : Point := ⟨c.baseX, c.baseY⟩

/-! ## Group law -/

namespace Jacobian

def infinity : Jacobian := ⟨1, 1, 0⟩

def ofPoint (q : Point) : Jacobian := ⟨q.x, q.y, 1⟩

def double (p : Nat) (a : Jacobian) : Jacobian :=
  if a.z = 0 then a
  else
    let delta := a.z * a.z % p
    let gamma := a.y * a.y % p
    let beta := a.x * gamma % p
    let alpha := 3 * (a.x + p - delta) * (a.x + delta) % p
    let x := (alpha * alpha + 8 * (p - beta)) % p
    let y := (alpha * (4 * beta + p - x) + 8 * (p - gamma * gamma % p)) % p
    let z := 2 * a.y * a.z % p
    ⟨x, y, z⟩

def add (p : Nat) (a b : Jacobian) : Jacobian :=
  if a.z = 0 then b
  else if b.z = 0 then a
  else
    let za := a.z * a.z % p
    let zb := b.z * b.z % p
    let ua := a.x * zb % p
    let ub := b.x * za % p
    let sa := a.y * b.z % p * zb % p
    let sb := b.y * a.z % p * za % p
    let h := (ub + p - ua) % p
    let r := (sb + p - sa) % p
    if h = 0 then if r = 0 then double p a else infinity
    else
      let hh := h * h % p
      let hhh := h * hh % p
      let v := ua * hh % p
      let x := (r * r + (p - hhh) + 2 * (p - v)) % p
      let y := (r * (v + p - x) + sa * (p - hhh)) % p
      let z := a.z * b.z % p * h % p
      ⟨x, y, z⟩

/-- `k` times a point added to `acc`, where `k` has at most `bits` bits. -/
def mulFrom (p : Nat) : Nat → Nat → Jacobian → Jacobian → Jacobian
  | 0, _, _, acc => acc
  | bits + 1, k, a, acc =>
    mulFrom p bits (k / 2) (double p a) (if k % 2 = 1 then add p acc a else acc)

def mul (p k : Nat) (a : Jacobian) : Jacobian := mulFrom p (Nat.log2 k + 1) k a infinity

/-- The affine point, unless it is the point at infinity. -/
def toPoint? (p : Nat) (a : Jacobian) : Option Point :=
  if a.z = 0 then none
  else
    let i := Modular.inverse a.z p
    let ii := i * i % p
    some ⟨a.x * ii % p, a.y * ii % p * i % p⟩

end Jacobian

def mulBase (c : Curve) (k : Nat) : Option Point :=
  (Jacobian.mul c.p k (.ofPoint c.base)).toPoint? c.p

/-- `k` times the base point plus `l` times another point. -/
def mulAdd (c : Curve) (k l : Nat) (q : Point) : Option Point :=
  (Jacobian.add c.p (Jacobian.mul c.p k (.ofPoint c.base))
    (Jacobian.mul c.p l (.ofPoint q))).toPoint? c.p

/-! ## Points as bytes -/

/-- The uncompressed form. -/
def encode (c : Curve) (q : Point) : Bytes :=
  4 :: Bytes.ofNatBE c.fieldSize q.x ++ Bytes.ofNatBE c.fieldSize q.y

/-- The compressed form, which gives the parity of `y` only. -/
def encodeCompressed (c : Curve) (q : Point) : Bytes :=
  (if q.y % 2 = 0 then 2 else 3) :: Bytes.ofNatBE c.fieldSize q.x

/-- The point with the given `x` whose `y` has the given parity. -/
def decompress? (c : Curve) (x parity : Nat) : Option Point := do
  if x < c.p then
    let y ← Modular.sqrt? ((x * x * x + (c.p - 3) * x + c.b) % c.p) c.p c.nonSquare
    let y := if y % 2 = parity then y else (c.p - y) % c.p
    if c.contains x y ∧ y % 2 = parity then some ⟨x, y⟩ else none
  else none

/-- Reads the uncompressed or the compressed form of a point on the curve. -/
def decode? (c : Curve) : Bytes → Option Point
  | [] => none
  | form :: rest =>
    if form = 4 ∧ rest.length = 2 * c.fieldSize then
      let x := Bytes.toNatBE (rest.take c.fieldSize)
      let y := Bytes.toNatBE (rest.drop c.fieldSize)
      if x < c.p ∧ y < c.p ∧ c.contains x y then some ⟨x, y⟩ else none
    else if (form = 2 ∨ form = 3) ∧ rest.length = c.fieldSize then
      c.decompress? (Bytes.toNatBE rest) (form.toNat % 2)
    else none

end Curve

end Firmware.Crypto
