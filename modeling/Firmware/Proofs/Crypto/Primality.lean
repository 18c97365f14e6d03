import Firmware.Proofs.Crypto.Rsa
import Mathlib.NumberTheory.LucasPrimality
import Mathlib.Tactic.NormNum.Prime

/-!
# Keys with prime factors

`prime_of_pow` : Lucas's test for the numbers of the form `q ^ j * 2 ^ n + 1`, run with the powers
that the keys themselves are used with.  The test asks that a number has the full order, and since
only two primes divide that order, two powers besides the full one decide it.

Primes of this form have short names at every size.  The keys at the end have two of 1024 and of
1536 bits, so that what is proved of keys with prime factors can be applied to keys of the sizes that
sign, the shorter of which wraps as well.
-/

namespace Firmware.Crypto

open Crypto.Modular (pow pow_eq)

theorem cast_pow_eq_one_iff {p : Nat} (hp : 1 < p) (a e : Nat) :
    (a : ZMod p) ^ e = 1 ↔ pow a e p = 1 := by
  rw [pow_eq, ← Nat.cast_pow, ← Nat.cast_one, ZMod.natCast_eq_natCast_iff', Nat.mod_eq_of_lt hp]

/-- Three powers of a base that show its order modulo `p` to be `p - 1`, if no primes but `2` and `q`
divide that number. -/
structure HasFullOrder (p a q : Nat) : Prop where
  full : pow a (p - 1) p = 1
  half : pow a ((p - 1) / 2) p ≠ 1
  part : pow a ((p - 1) / q) p ≠ 1

instance (p a q : Nat) : Decidable (HasFullOrder p a q) :=
  decidable_of_iff (pow a (p - 1) p = 1 ∧ pow a ((p - 1) / 2) p ≠ 1 ∧ pow a ((p - 1) / q) p ≠ 1)
    ⟨fun ⟨full, half, part⟩ => ⟨full, half, part⟩, fun h => ⟨h.full, h.half, h.part⟩⟩

theorem prime_of_pow {p a q j n : Nat} (hq : q.Prime) (hp : p = q ^ j * 2 ^ n + 1)
    (horder : HasFullOrder p a q) : p.Prime := by
  have hone : 1 < p := by
    have hpos : 0 < q ^ j * 2 ^ n := Nat.mul_pos (Nat.pow_pos hq.pos) (Nat.two_pow_pos n)
    omega
  refine lucas_primality p (a : ZMod p) ((cast_pow_eq_one_iff hone a _).mpr horder.full) ?_
  intro r hr hdvd
  rw [Ne, cast_pow_eq_one_iff hone]
  rw [hp, Nat.add_sub_cancel] at hdvd
  rcases (Nat.Prime.dvd_mul hr).mp hdvd with hdvd | hdvd
  · obtain rfl := (Nat.prime_dvd_prime_iff_eq hr hq).mp (hr.dvd_of_dvd_pow hdvd)
    exact horder.part
  · obtain rfl := (Nat.prime_dvd_prime_iff_eq hr Nat.prime_two).mp (hr.dvd_of_dvd_pow hdvd)
    exact horder.half

namespace Rsa

/-- A key of 2048 bits with the exponent three.  Both factors are two more than a multiple of three,
which makes the private exponent a whole number. -/
def primeKey : PrivateKey where
  modulus := (11 ^ 3 * 2 ^ 1013 + 1) * (3931 ^ 1 * 2 ^ 1012 + 1)
  exponent := 3
  secret := (2 * (11 ^ 3 * 2 ^ 1013) * (3931 ^ 1 * 2 ^ 1012) + 1) / 3
  prime1 := 11 ^ 3 * 2 ^ 1013 + 1
  prime2 := 3931 ^ 1 * 2 ^ 1012 + 1

set_option maxRecDepth 100000 in
theorem spec_primeKey :
    primeKey.isValid = true ∧ primeKey.prime1 ≠ primeKey.prime2 ∧ primeKey.size = 256 ∧
      HasFullOrder primeKey.prime1 3 11 ∧ HasFullOrder primeKey.prime2 3 3931 := by
  decide +kernel

theorem size_primeKey : primeKey.size = 256 := spec_primeKey.2.2.1

set_option maxRecDepth 100000 in
theorem hasPrimes_primeKey : primeKey.HasPrimes := by
  obtain ⟨hvalid, hne, -, horder1, horder2⟩ := spec_primeKey
  have hfactor1 : Nat.Prime 11 := by norm_num
  have hfactor2 : Nat.Prime 3931 := by norm_num
  exact ⟨hvalid, @prime_of_pow _ 3 11 3 1013 hfactor1 rfl horder1,
    @prime_of_pow _ 3 3931 1 1012 hfactor2 rfl horder2, hne⟩

/-- A key of 3072 bits of the same kind. -/
def longKey : PrivateKey where
  modulus := (193 ^ 1 * 2 ^ 1528 + 1) * (4051 ^ 1 * 2 ^ 1524 + 1)
  exponent := 3
  secret := (2 * (193 ^ 1 * 2 ^ 1528) * (4051 ^ 1 * 2 ^ 1524) + 1) / 3
  prime1 := 193 ^ 1 * 2 ^ 1528 + 1
  prime2 := 4051 ^ 1 * 2 ^ 1524 + 1

set_option maxRecDepth 100000 in
theorem spec_longKey :
    longKey.isValid = true ∧ longKey.prime1 ≠ longKey.prime2 ∧ longKey.size = 384 ∧
      HasFullOrder longKey.prime1 3 193 ∧ HasFullOrder longKey.prime2 3 4051 := by
  decide +kernel

theorem size_longKey : longKey.size = 384 := spec_longKey.2.2.1

set_option maxRecDepth 100000 in
theorem hasPrimes_longKey : longKey.HasPrimes := by
  obtain ⟨hvalid, hne, -, horder1, horder2⟩ := spec_longKey
  have hfactor1 : Nat.Prime 193 := by norm_num
  have hfactor2 : Nat.Prime 4051 := by norm_num
  exact ⟨hvalid, @prime_of_pow _ 3 193 1 1528 hfactor1 rfl horder1,
    @prime_of_pow _ 3 4051 1 1524 hfactor2 rfl horder2, hne⟩

end Rsa

end Firmware.Crypto
