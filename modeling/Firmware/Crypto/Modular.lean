/-!
# Modular arithmetic

Powers, inverses and square roots of natural numbers modulo a number.  Every loop is bounded by the
number of bits of its input.
-/

namespace Firmware.Crypto.Modular

/-- `acc * base ^ e` modulo `m`, where `e` has at most `bits` bits. -/
def powFrom (m : Nat) : Nat → Nat → Nat → Nat → Nat
  | 0, _, _, acc => acc
  | bits + 1, base, e, acc =>
    powFrom m bits (base * base % m) (e / 2) (if e % 2 = 1 then acc * base % m else acc)

/-- `base ^ e` modulo `m`. -/
def pow (base e m : Nat) : Nat := powFrom m (Nat.log2 e + 1) (base % m) e (1 % m)

/-- `a - b` modulo `m`. -/
def sub (a b m : Nat) : Nat := (a % m + (m - b % m)) % m

/-- The extended Euclidean algorithm on `r₀ > r₁`, where `tᵢ * a` is `rᵢ` modulo `m`. -/
def inverseFrom (m : Nat) : Nat → Nat → Nat → Nat → Nat → Option Nat
  | 0, _, _, _, _ => none
  | fuel + 1, r₀, r₁, t₀, t₁ =>
    if r₁ = 0 then if r₀ = 1 then some (t₀ % m) else none
    else inverseFrom m fuel r₁ (r₀ % r₁) t₁ (sub t₀ (r₀ / r₁ * t₁) m)

/-- The inverse of `a` modulo `m`, if the two are coprime.  A Euclidean run shortens the larger
number by a bit in every two steps. -/
def inverse? (a m : Nat) : Option Nat := inverseFrom m (2 * Nat.log2 m + 4) m (a % m) 0 1

/-- The inverse of `a` modulo a prime, by Fermat's theorem; zero has the inverse zero. -/
def inverse (a p : Nat) : Nat := pow a (p - 2) p

/-- The number of factors two in `n`, at most `fuel`. -/
def twos : Nat → Nat → Nat
  | 0, _ => 0
  | fuel + 1, n => if n ≠ 0 ∧ n % 2 = 0 then twos fuel (n / 2) + 1 else 0

/-- The least `i ≤ fuel` such that squaring `t` that often gives one, if there is one. -/
def orderLog (p : Nat) : Nat → Nat → Option Nat
  | 0, t => if t = 1 then some 0 else none
  | fuel + 1, t => if t = 1 then some 0 else (orderLog p fuel (t * t % p)).map (· + 1)

/-- The loop of Tonelli and Shanks: `x² = a t`, `t` has an order that divides `2 ^ (k - 1)`, and
`c` has order `2 ^ k`. -/
def sqrtFrom (p : Nat) : Nat → Nat → Nat → Nat → Nat → Option Nat
  | 0, _, _, _, _ => none
  | fuel + 1, k, c, t, x =>
    match orderLog p (k - 1) t with
    | none => none
    | some 0 => some x
    | some i =>
      let b := pow c (Nat.pow 2 (k - i - 1)) p
      let b2 := b * b % p
      sqrtFrom p fuel i b2 (t * b2 % p) (x * b % p)

/-- A square root of `a` modulo an odd prime, if there is one.  `z` must not be a square. -/
def sqrt? (a p z : Nat) : Option Nat :=
  let a := a % p
  if a = 0 then some 0
  else
    let k := twos (Nat.log2 p + 1) (p - 1)
    let q := (p - 1) / Nat.pow 2 k
    sqrtFrom p (k + 1) k (pow z q p) (pow a q p) (pow a ((q + 1) / 2) p)

end Firmware.Crypto.Modular
