import Firmware.Crypto.Rsa
import Firmware.Proofs.Crypto.Modular
import Mathlib.FieldTheory.Finite.Basic

/-!
# RSA primitives

`applyChecked?_eq_some_iff` : the private primitive gives the power it computes if the public
primitive takes that back to the input, and nothing otherwise.  So a result needs no number theory,
and `power_lt` bounds it by the modulus.

`applyChecked?_apply` : when the two factors of a valid key are distinct primes, the private primitive
takes back the public one.  The power is right modulo each prime, by Fermat's theorem, on whichever
of the two ways it is computed.

`exists_applyChecked?` : with such a key the private primitive refuses no reduced number.
-/

namespace Firmware.Crypto.Rsa

variable {key : PrivateKey} {c m : Nat}

/-! ## Valid keys -/

/-- What a valid key says about its numbers. -/
structure PrivateKey.Sound (key : PrivateKey) : Prop where
  prime1 : 1 < key.prime1
  prime2 : 1 < key.prime2
  modulus : key.prime1 * key.prime2 = key.modulus
  inverse1 : key.secret * key.exponent % (key.prime1 - 1) = 1
  inverse2 : key.secret * key.exponent % (key.prime2 - 1) = 1

theorem sound_of_isValid (h : key.isValid = true) : key.Sound := by
  simp only [PrivateKey.isValid, Bool.and_eq_true, decide_eq_true_eq, beq_iff_eq] at h
  obtain ⟨⟨⟨⟨⟨_, h₁⟩, h₂⟩, hm⟩, hd₁⟩, hd₂⟩ := h
  exact ⟨h₁, h₂, hm, hd₁, hd₂⟩

/-- A valid key whose factors are distinct primes. -/
structure PrivateKey.HasPrimes (key : PrivateKey) : Prop where
  isValid : key.isValid = true
  prime1 : key.prime1.Prime
  prime2 : key.prime2.Prime
  ne : key.prime1 ≠ key.prime2

theorem PrivateKey.HasPrimes.sound (h : key.HasPrimes) : key.Sound := sound_of_isValid h.isValid

theorem PrivateKey.Sound.modulus_pos (h : key.Sound) : 0 < key.modulus := by
  rw [← h.modulus]
  exact Nat.mul_pos (Nat.lt_of_succ_lt h.prime1) (Nat.lt_of_succ_lt h.prime2)

/-! ## Results -/

theorem apply_lt (h : key.Sound) (m : Nat) : key.toPublic.apply m < key.modulus := by
  unfold PublicKey.apply
  rw [Modular.pow_eq]
  exact Nat.mod_lt _ h.modulus_pos

theorem applyChecked?_eq_some_iff :
    key.applyChecked? c = some m ↔ c < key.modulus ∧ key.power c = m ∧ key.toPublic.apply m = c := by
  unfold PrivateKey.applyChecked?
  constructor
  · intro h
    split at h
    · rename_i hlt
      change (if _ then _ else _) = _ at h
      split at h
      · rename_i happly
        obtain rfl := Option.some.inj h
        exact ⟨hlt, rfl, happly⟩
      · cases h
    · cases h
  · rintro ⟨hlt, rfl, happly⟩
    rw [if_pos hlt]
    exact if_pos happly

theorem power_lt (h : key.Sound) (c : Nat) : key.power c < key.modulus := by
  unfold PrivateKey.power
  split
  · rw [Modular.pow_eq]
    exact Nat.mod_lt _ h.modulus_pos
  · rename_i coefficient _
    have h₁ : 0 < key.prime1 := Nat.lt_of_succ_lt h.prime1
    have h₂ : 0 < key.prime2 := Nat.lt_of_succ_lt h.prime2
    have hm₂ : Modular.pow c key.exponent2 key.prime2 < key.prime2 := by
      rw [Modular.pow_eq]
      exact Nat.mod_lt _ h₂
    dsimp only
    generalize Modular.sub _ _ key.prime1 * coefficient = x
    have hx : x % key.prime1 + 1 ≤ key.prime1 := Nat.mod_lt x h₁
    calc x % key.prime1 * key.prime2 + Modular.pow c key.exponent2 key.prime2
        < x % key.prime1 * key.prime2 + key.prime2 := Nat.add_lt_add_left hm₂ _
      _ = (x % key.prime1 + 1) * key.prime2 := by rw [Nat.succ_mul]
      _ ≤ key.prime1 * key.prime2 := Nat.mul_le_mul_right _ hx
      _ = key.modulus := h.modulus

/-! ## Fermat's theorem -/

/-- A power whose exponent is one more than a multiple of `p - 1` changes nothing modulo `p`. -/
theorem pow_modEq_self {p e : Nat} (hp : p.Prime) (he : e % (p - 1) = 1) (m : Nat) :
    m ^ e ≡ m [MOD p] := by
  have : Fact p.Prime := ⟨hp⟩
  have hsplit : e = (p - 1) * (e / (p - 1)) + 1 := by
    conv_lhs => rw [← Nat.div_add_mod e (p - 1), he]
  rw [← ZMod.natCast_eq_natCast_iff, hsplit, Nat.cast_pow]
  generalize e / (p - 1) = k
  generalize (m : ZMod p) = x
  induction k with
  | zero => rw [Nat.mul_zero, Nat.zero_add, pow_one]
  | succ k ih =>
      have hexponent : (p - 1) * (k + 1) + 1 = (p - 1) * k + p := by
        have hpos := hp.pos
        rw [Nat.mul_succ]
        omega
      rw [hexponent, pow_add, ZMod.pow_card, ← pow_succ, ih]

/-- The exponent may be reduced before it is used. -/
theorem pow_reduced_modEq_self {p d e : Nat} (hp : p.Prime) (he : d * e % (p - 1) = 1)
    (hc : c ≡ m ^ e [MOD p]) : c ^ (d % (p - 1)) ≡ m [MOD p] := by
  have hreduced : e * (d % (p - 1)) % (p - 1) = 1 := by
    rw [Nat.mul_mod_mod, Nat.mul_comm]
    exact he
  calc c ^ (d % (p - 1))
      ≡ (m ^ e) ^ (d % (p - 1)) [MOD p] := hc.pow _
    _ = m ^ (e * (d % (p - 1))) := (Nat.pow_mul _ _ _).symm
    _ ≡ m [MOD p] := pow_modEq_self hp hreduced m

/-! ## The private primitive takes the public one back -/

/-- Modulo each prime, the power of a ciphertext is the message. -/
theorem power_modEq (h : key.HasPrimes) (hc : c ≡ m ^ key.exponent [MOD key.modulus]) :
    key.power c ≡ m [MOD key.prime1] ∧ key.power c ≡ m [MOD key.prime2] := by
  obtain ⟨-, hp, hq, -⟩ := id h
  have hsound := h.sound
  have hdvd₁ : key.prime1 ∣ key.modulus := ⟨key.prime2, hsound.modulus.symm⟩
  have hdvd₂ : key.prime2 ∣ key.modulus := ⟨key.prime1, by rw [Nat.mul_comm, hsound.modulus]⟩
  have hc₁ : c ≡ m ^ key.exponent [MOD key.prime1] := hc.of_dvd hdvd₁
  have hc₂ : c ≡ m ^ key.exponent [MOD key.prime2] := hc.of_dvd hdvd₂
  unfold PrivateKey.power
  split
  · rw [Modular.pow_eq]
    have hwhole : ∀ p, p.Prime → p ∣ key.modulus → key.secret * key.exponent % (p - 1) = 1 →
        c ≡ m ^ key.exponent [MOD p] → c ^ key.secret % key.modulus ≡ m [MOD p] := by
      intro p hprime hdvd hinverse hcp
      calc c ^ key.secret % key.modulus
          ≡ c ^ key.secret [MOD p] := (Nat.mod_modEq _ _).of_dvd hdvd
        _ ≡ (m ^ key.exponent) ^ key.secret [MOD p] := hcp.pow _
        _ = m ^ (key.secret * key.exponent) := by rw [← Nat.pow_mul, Nat.mul_comm]
        _ ≡ m [MOD p] := pow_modEq_self hprime hinverse m
    exact ⟨hwhole _ hp hdvd₁ hsound.inverse1 hc₁, hwhole _ hq hdvd₂ hsound.inverse2 hc₂⟩
  · rename_i coefficient hcoefficient
    have hinverse := Modular.mul_of_inverse?_eq_some hp.pos hcoefficient
    have hm₁ : Modular.pow c key.exponent1 key.prime1 ≡ m [MOD key.prime1] := by
      rw [Modular.pow_eq]
      exact (Nat.mod_modEq _ _).trans (pow_reduced_modEq_self hp hsound.inverse1 hc₁)
    have hm₂ : Modular.pow c key.exponent2 key.prime2 ≡ m [MOD key.prime2] := by
      rw [Modular.pow_eq]
      exact (Nat.mod_modEq _ _).trans (pow_reduced_modEq_self hq hsound.inverse2 hc₂)
    dsimp only
    generalize Modular.pow c key.exponent1 key.prime1 = m₁ at hm₁
    generalize Modular.pow c key.exponent2 key.prime2 = m₂ at hm₂
    constructor
    · calc Modular.sub m₁ m₂ key.prime1 * coefficient % key.prime1 * key.prime2 + m₂
          ≡ Modular.sub m₁ m₂ key.prime1 * coefficient * key.prime2 + m₂ [MOD key.prime1] :=
            ((Nat.mod_modEq _ _).mul_right _).add_right _
        _ = Modular.sub m₁ m₂ key.prime1 * (coefficient * key.prime2) + m₂ := by
            rw [Nat.mul_assoc]
        _ ≡ Modular.sub m₁ m₂ key.prime1 * 1 + m₂ [MOD key.prime1] :=
            (hinverse.mul_left _).add_right _
        _ = Modular.sub m₁ m₂ key.prime1 + m₂ := by rw [Nat.mul_one]
        _ ≡ m₁ [MOD key.prime1] := Modular.sub_add_modEq hp.pos m₁ m₂
        _ ≡ m [MOD key.prime1] := hm₁
    · have hmultiple : Modular.sub m₁ m₂ key.prime1 * coefficient % key.prime1 * key.prime2 ≡ 0
          [MOD key.prime2] :=
        Nat.modEq_zero_iff_dvd.mpr (Nat.dvd_mul_left _ _)
      have hsum := hmultiple.add hm₂
      rwa [Nat.zero_add] at hsum

theorem applyChecked?_apply (h : key.HasPrimes) (hm : m < key.modulus) :
    key.applyChecked? (key.toPublic.apply m) = some m := by
  have happly : key.toPublic.apply m = m ^ key.exponent % key.modulus := Modular.pow_eq _ _ _
  have hc : key.toPublic.apply m ≡ m ^ key.exponent [MOD key.modulus] := by
    rw [happly]
    exact Nat.mod_modEq _ _
  obtain ⟨h₁, h₂⟩ := power_modEq h hc
  have hcoprime : key.prime1.Coprime key.prime2 :=
    (Nat.coprime_primes h.prime1 h.prime2).mpr h.ne
  have hboth : key.power (key.toPublic.apply m) ≡ m [MOD key.modulus] := by
    rw [← h.sound.modulus]
    exact (Nat.modEq_and_modEq_iff_modEq_mul hcoprime).mp ⟨h₁, h₂⟩
  have hpower : key.power (key.toPublic.apply m) = m :=
    Nat.ModEq.eq_of_lt_of_lt hboth (power_lt h.sound _) hm
  exact applyChecked?_eq_some_iff.mpr ⟨apply_lt h.sound m, hpower, rfl⟩

/-- Since it can be taken back, the public primitive maps the reduced numbers one-to-one and so onto
themselves. -/
theorem exists_applyChecked? (h : key.HasPrimes) (hc : c < key.modulus) :
    ∃ m, key.applyChecked? c = some m := by
  let apply (m : Fin key.modulus) : Fin key.modulus := ⟨key.toPublic.apply m, apply_lt h.sound m⟩
  have hinjective : Function.Injective apply := by
    intro a b hab
    have ha := applyChecked?_apply h a.isLt
    have hb := applyChecked?_apply h b.isLt
    have hsame : key.toPublic.apply a = key.toPublic.apply b := congrArg Fin.val hab
    rw [hsame] at ha
    exact Fin.ext (Option.some.inj (ha.symm.trans hb))
  obtain ⟨m, hm⟩ := Finite.injective_iff_surjective.mp hinjective ⟨c, hc⟩
  obtain rfl : key.toPublic.apply m = c := congrArg Fin.val hm
  exact ⟨m, applyChecked?_apply h m.isLt⟩

end Firmware.Crypto.Rsa
