import Firmware.Crypto.Modular
import Mathlib.Data.Nat.ModEq

/-!
# Modular arithmetic

`pow_eq` : the square-and-multiply loop computes a power.  `mul_of_inverse?_eq_some` : what the
extended Euclidean algorithm returns is an inverse, by the invariant that each remainder is a known
multiple of the input.  That it returns something for every coprime input is not needed anywhere.
-/

namespace Firmware.Crypto.Modular

/-! ## Powers -/

/-- The loop keeps `acc * base ^ e`, up to multiples of `m`. -/
theorem powFrom_eq {m bits base e acc : Nat} (he : e < 2 ^ bits) (hacc : acc % m = acc) :
    powFrom m bits base e acc = acc * base ^ e % m := by
  induction bits generalizing base e acc with
  | zero =>
      have hzero : e = 0 := Nat.lt_one_iff.mp he
      rw [powFrom, hzero, Nat.pow_zero, Nat.mul_one, hacc]
  | succ bits ih =>
      have hhalf : e / 2 < 2 ^ bits := by
        rw [Nat.pow_succ] at he
        omega
      have hsquare : (base * base % m) ^ (e / 2) ≡ base ^ (2 * (e / 2)) [MOD m] := by
        rw [Nat.pow_mul, Nat.pow_two]
        exact (Nat.mod_modEq _ _).pow _
      rw [powFrom]
      split
      · rename_i hodd
        have hsplit : acc * base * base ^ (2 * (e / 2)) = acc * base ^ e := by
          have he' : e = 2 * (e / 2) + 1 := by omega
          conv_rhs => rw [he', Nat.pow_succ]
          rw [Nat.mul_assoc, Nat.mul_comm base]
        rw [ih hhalf (Nat.mod_mod _ _), ← hsplit]
        exact (Nat.mod_modEq _ _).mul hsquare
      · rename_i heven
        have he' : 2 * (e / 2) = e := by omega
        rw [ih hhalf hacc]
        rw [he'] at hsquare
        exact hsquare.mul_left acc

theorem pow_eq (base e m : Nat) : pow base e m = base ^ e % m := by
  rw [pow, powFrom_eq Nat.lt_log2_self (Nat.mod_mod 1 m)]
  have hone : 1 % m * (base % m) ^ e ≡ 1 * base ^ e [MOD m] :=
    (Nat.mod_modEq 1 m).mul ((Nat.mod_modEq base m).pow e)
  rw [Nat.one_mul] at hone
  exact hone

/-! ## Differences and inverses -/

theorem sub_add_modEq {m : Nat} (hm : 0 < m) (a b : Nat) : sub a b m + b ≡ a [MOD m] := by
  have hb : b % m ≤ m := Nat.le_of_lt (Nat.mod_lt b hm)
  calc sub a b m + b
      ≡ a % m + (m - b % m) + b % m [MOD m] :=
        (Nat.mod_modEq _ m).add (Nat.mod_modEq b m).symm
    _ = a % m + m := by omega
    _ ≡ a + 0 [MOD m] := (Nat.mod_modEq a m).add ((Nat.modEq_zero_iff_dvd).mpr (Nat.dvd_refl m))

/-- Each remainder is a multiple of `a`, up to multiples of `m`. -/
theorem mul_of_inverseFrom_eq_some {m a fuel r₀ r₁ t₀ t₁ t : Nat} (hm : 0 < m)
    (h₀ : t₀ * a ≡ r₀ [MOD m]) (h₁ : t₁ * a ≡ r₁ [MOD m])
    (h : inverseFrom m fuel r₀ r₁ t₀ t₁ = some t) : t * a ≡ 1 [MOD m] := by
  induction fuel generalizing r₀ r₁ t₀ t₁ with
  | zero => cases h
  | succ fuel ih =>
      rw [inverseFrom] at h
      split at h
      · split at h
        · rename_i hone
          obtain rfl := Option.some.inj h
          rw [hone] at h₀
          exact ((Nat.mod_modEq t₀ m).mul_right a).trans h₀
        · cases h
      · refine ih h₁ ?_ h
        have hdiff : (sub t₀ (r₀ / r₁ * t₁) m + r₀ / r₁ * t₁) * a ≡ r₀ [MOD m] :=
          ((sub_add_modEq hm _ _).mul_right a).trans h₀
        have hback : r₀ / r₁ * t₁ * a ≡ r₀ / r₁ * r₁ [MOD m] := by
          rw [Nat.mul_assoc]
          exact h₁.mul_left _
        rw [Nat.add_mul] at hdiff
        have hsplit : r₀ = r₀ % r₁ + r₀ / r₁ * r₁ := by
          rw [Nat.mul_comm]
          exact (Nat.mod_add_div r₀ r₁).symm
        rw [hsplit] at hdiff
        exact Nat.ModEq.add_right_cancel hback (by simpa [← hsplit] using hdiff)

theorem mul_of_inverse?_eq_some {a m t : Nat} (hm : 0 < m) (h : inverse? a m = some t) :
    t * a ≡ 1 [MOD m] := by
  refine mul_of_inverseFrom_eq_some hm ?_ ?_ h
  · rw [Nat.zero_mul]
    exact (Nat.modEq_zero_iff_dvd.mpr (Nat.dvd_refl m)).symm
  · rw [Nat.one_mul]
    exact (Nat.mod_modEq a m).symm

end Firmware.Crypto.Modular
