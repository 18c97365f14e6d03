import Firmware.Crypto.KeyWrap
import Firmware.Proofs.Crypto.Aes

/-!
# Unwrapping undoes wrapping

`wrap_spec` : the wrapped form is eight bytes longer than the key, and the key comes out of it again
under the same key-encryption key.

A pass goes over the registers from the first one on and counts up, and the pass back goes from the
last one on and counts down.  So an induction along the pass has to take the last step off the pass
back; `unwrapPass_append` and `unwrapPasses_succ` do that.
-/

namespace Firmware.Crypto.KeyWrap

/-- Registers of eight bytes. -/
def Registers (rs : List Bytes) : Prop := ∀ r ∈ rs, r.length = 8

section Passes

variable {keys : List Bytes} {t : Nat} {a a' : Bytes} {rs rs' : List Bytes}

theorem length_halves {b : Bytes} (hb : b.length = 16) :
    (b.take 8).length = 8 ∧ (b.drop 8).length = 8 := by
  rw [List.length_take, List.length_drop, hb]
  exact ⟨rfl, rfl⟩

theorem length_xor_counter (ha : a.length = 8) : (Bytes.xor a (Bytes.ofNatBE 8 t)).length = 8 := by
  rw [Bytes.length_xor, ha, Bytes.length_ofNatBE, Nat.min_self]

theorem xor_counter_xor_counter (ha : a.length = 8) :
    Bytes.xor (Bytes.xor a (Bytes.ofNatBE 8 t)) (Bytes.ofNatBE 8 t) = a :=
  Bytes.xor_xor (Nat.le_of_eq (by rw [ha, Bytes.length_ofNatBE]))

/-! ## One pass -/

theorem length_unwrapPass (keys : List Bytes) (t : Nat) (a : Bytes) (rs : List Bytes) :
    (unwrapPass keys t a rs).2.length = rs.length := by
  induction rs generalizing t a with
  | nil => rfl
  | cons r rs ih => exact congrArg Nat.succ (ih _ _)

theorem unwrapPass_append (keys : List Bytes) (t : Nat) (a : Bytes) (xs ys : List Bytes) :
    unwrapPass keys t a (xs ++ ys) =
      ((unwrapPass keys (t - xs.length) (unwrapPass keys t a xs).1 ys).1,
        (unwrapPass keys t a xs).2 ++
          (unwrapPass keys (t - xs.length) (unwrapPass keys t a xs).1 ys).2) := by
  induction xs generalizing t a with
  | nil => rfl
  | cons x xs ih =>
      have hcount : t - (x :: xs).length = t - 1 - xs.length := by
        rw [List.length_cons]
        omega
      rw [List.cons_append, unwrapPass, ih, hcount]
      rfl

/-- A pass keeps the sizes, and the pass back takes it back. -/
theorem wrapPass_spec (hkeys : ∀ k ∈ keys, k.length = 16) (ha : a.length = 8)
    (hrs : Registers rs) (h : wrapPass keys t a rs = (a', rs')) :
    a'.length = 8 ∧ Registers rs' ∧ rs'.length = rs.length ∧
      unwrapPass keys (t + rs.length - 1) a' rs'.reverse = (a, rs.reverse) := by
  induction rs generalizing t a a' rs' with
  | nil =>
      obtain ⟨rfl, rfl⟩ := Prod.mk.inj h
      exact ⟨ha, hrs, rfl, rfl⟩
  | cons r rs ih =>
      rw [Registers, List.forall_mem_cons] at hrs
      have hblock : (a ++ r).length = 16 := by rw [List.length_append, ha, hrs.1]
      have hb := Aes.length_encryptBlock hkeys hblock
      have hundo := Aes.decryptBlock_encryptBlock hkeys hblock
      rw [wrapPass] at h
      generalize Aes.encryptBlock keys (a ++ r) = b at hb hundo h
      obtain ⟨htake, hdrop⟩ := length_halves hb
      rcases hpass : wrapPass keys (t + 1) (Bytes.xor (b.take 8) (Bytes.ofNatBE 8 t)) rs with
        ⟨a₁, rs₁⟩
      obtain ⟨ha₁, hrs₁, hlen, hback⟩ := ih (length_xor_counter htake) hrs.2 hpass
      rw [hpass] at h
      obtain ⟨rfl, rfl⟩ := Prod.mk.inj h
      have hcount : t + (r :: rs).length - 1 = t + 1 + rs.length - 1 := by
        rw [List.length_cons]
        omega
      have hlast : t + 1 + rs.length - 1 - rs₁.reverse.length = t := by
        rw [List.length_reverse, hlen]
        omega
      have hstep : unwrapPass keys t (Bytes.xor (b.take 8) (Bytes.ofNatBE 8 t)) [b.drop 8] =
          (a, [r]) := by
        rw [unwrapPass, xor_counter_xor_counter htake, List.take_append_drop, hundo, ← ha,
          List.take_left, List.drop_left]
        rfl
      refine ⟨ha₁, List.forall_mem_cons.mpr ⟨hdrop, hrs₁⟩, congrArg Nat.succ hlen, ?_⟩
      rw [List.reverse_cons, unwrapPass_append, hcount, hback, hlast, hstep, List.reverse_cons]

/-! ## All passes -/

theorem unwrapPasses_eq (keys : List Bytes) (passes t : Nat) (a : Bytes) (rs : List Bytes) :
    unwrapPasses keys (passes + 1) t a rs =
      unwrapPasses keys passes (t - rs.length) (unwrapPass keys t a rs).1
        (unwrapPass keys t a rs).2 := by
  rw [unwrapPasses]
  dsimp only
  rw [length_unwrapPass]

/-- The last pass back comes after the others. -/
theorem unwrapPasses_succ (keys : List Bytes) (passes t : Nat) (a : Bytes) (rs : List Bytes) :
    unwrapPasses keys (passes + 1) t a rs =
      unwrapPass keys (t - passes * rs.length) (unwrapPasses keys passes t a rs).1
        (unwrapPasses keys passes t a rs).2 := by
  induction passes generalizing t a rs with
  | zero =>
      rw [Nat.zero_mul]
      rfl
  | succ passes ih =>
      have hcount : t - (passes + 1) * rs.length = t - rs.length - passes * rs.length := by
        rw [Nat.succ_mul]
        omega
      rw [unwrapPasses_eq keys (passes + 1), ih, length_unwrapPass, ← hcount,
        unwrapPasses_eq keys passes]

theorem wrapPasses_spec (hkeys : ∀ k ∈ keys, k.length = 16) (ha : a.length = 8)
    (hrs : Registers rs) (passes : Nat) (h : wrapPasses keys passes t a rs = (a', rs')) :
    a'.length = 8 ∧ Registers rs' ∧ rs'.length = rs.length ∧
      unwrapPasses keys passes (t + passes * rs.length - 1) a' rs'.reverse = (a, rs.reverse) := by
  induction passes generalizing t a rs with
  | zero =>
      obtain ⟨rfl, rfl⟩ := Prod.mk.inj h
      exact ⟨ha, hrs, rfl, rfl⟩
  | succ passes ih =>
      rcases hpass : wrapPass keys t a rs with ⟨a₁, rs₁⟩
      obtain ⟨ha₁, hrs₁, hlen, hback⟩ := wrapPass_spec hkeys ha hrs hpass
      rw [wrapPasses, hpass] at h
      obtain ⟨ha', hrs', hlen', hbacks⟩ := ih ha₁ hrs₁ h
      rw [hlen] at hlen' hbacks
      have hcount : t + (passes + 1) * rs.length - 1 = t + rs.length + passes * rs.length - 1 := by
        rw [Nat.succ_mul, Nat.add_comm (passes * rs.length), Nat.add_assoc]
      have hlast : t + rs.length + passes * rs.length - 1 - passes * rs'.reverse.length =
          t + rs.length - 1 := by
        rw [List.length_reverse, hlen']
        omega
      refine ⟨ha', hrs', hlen', ?_⟩
      rw [unwrapPasses_succ, hcount, hbacks, hlast, hback]

end Passes

/-! ## Wrapped keys -/

theorem wrap_spec {kek data : Bytes} {count : Nat} (hkek : kek.length = 16)
    (hdata : data.length = count * 8) :
    (wrap kek data).length = data.length + 8 ∧ unwrap? kek (wrap kek data) = some data := by
  have hkeys := @Aes.length_of_mem_roundKeys kek 4 (by decide) hkek
  obtain ⟨hcount, hrs⟩ := Bytes.chunks_of_length (by decide) hdata
  have hflatten : (Bytes.chunks 8 data).flatten = data := Bytes.flatten_chunks (by decide) data
  rcases hpasses : wrapPasses (Aes.roundKeys kek) 6 1 initialValue (Bytes.chunks 8 data) with
    ⟨a, rs⟩
  obtain ⟨ha, hrs', hlen, hback⟩ := wrapPasses_spec hkeys rfl hrs 6 hpasses
  have hwrap : wrap kek data = a ++ rs.flatten := by rw [wrap, hpasses]
  rw [hwrap]
  constructor
  · rw [List.length_append, ha, Bytes.length_flatten_of_length hrs', hlen, hcount, hdata,
      Nat.add_comm]
  · rw [unwrap?, ← ha, List.drop_left, List.take_left, ha, Bytes.chunks_flatten (by decide) hrs',
      List.length_reverse, hlen]
    rw [Nat.add_sub_cancel_left] at hback
    rw [hback]
    dsimp only
    rw [if_pos rfl, List.reverse_reverse, hflatten]

end Firmware.Crypto.KeyWrap
