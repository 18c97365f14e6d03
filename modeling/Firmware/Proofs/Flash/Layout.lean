import Firmware.Flash.Layout
import Mathlib.Data.List.Nodup
import Mathlib.Data.List.Pairwise

/-!
# Layouts without a breach

`validate_eq_ok_iff` : a layout is valid exactly when any two of its areas are `Compatible`, that
is, on different devices or with different IDs and no common byte.

The sweep of a device compares an area only with those behind it that start before it stops.  In
sweep order these are all that matter: the areas that start before a given byte stand first
(`takeWhile_start_eq_filter`), and an area that starts later shares no byte with this one
(`overlaps_of_start_le`).
-/

namespace Firmware.Flash

/-! ## Areas -/

namespace Area

/-- A byte of the device lies in the area. -/
def Covers (a : Area) (i : Nat) : Prop := a.start ≤ i ∧ i < a.stop

instance (a : Area) (i : Nat) : Decidable (a.Covers i) :=
  inferInstanceAs (Decidable (a.start ≤ i ∧ i < a.stop))

theorem isEmpty_eq_false_iff {a : Area} : a.isEmpty = false ↔ a.start < a.stop := by
  have hsize : a.size = 0 ↔ a.size.toNat = 0 := UInt32.toNat_inj.symm
  rw [isEmpty, beq_eq_false_iff_ne, Ne, hsize, start, stop]
  omega

theorem overlaps_eq_true_iff {a b : Area} :
    a.overlaps b = true ↔ ∃ i, a.Covers i ∧ b.Covers i := by
  simp only [overlaps, Bool.and_eq_true, Bool.not_eq_true', isEmpty_eq_false_iff,
    decide_eq_true_eq, Covers]
  constructor
  · rintro ⟨⟨⟨ha, hb⟩, hab⟩, hba⟩
    exact ⟨max a.start b.start, by omega, by omega⟩
  · rintro ⟨i, ha, hb⟩
    omega

theorem overlaps_comm (a b : Area) : a.overlaps b = b.overlaps a := by
  rw [Bool.eq_iff_iff, overlaps_eq_true_iff, overlaps_eq_true_iff]
  exact exists_congr fun _ => and_comm

/-- Two areas in the order of their starts overlap when none of them is empty and the second one
starts before the first one stops. -/
theorem overlaps_of_start_le {a b : Area} (h : a.start ≤ b.start) :
    a.overlaps b = (decide (b.start < a.stop) && (!b.isEmpty && !a.isEmpty)) := by
  have hb : b.isEmpty = false → a.start < b.stop := by
    intro hb
    exact Nat.lt_of_le_of_lt h (isEmpty_eq_false_iff.mp hb)
  cases hempty : b.isEmpty with
  | true => simp [overlaps, hempty]
  | false => simp [overlaps, hempty, hb hempty, Bool.and_comm]

end Area

/-- Two areas that one layout may have. -/
def Compatible (a b : Area) : Prop := a.device = b.device → a.id ≠ b.id ∧ a.overlaps b = false

instance (a b : Area) : Decidable (Compatible a b) :=
  inferInstanceAs (Decidable (a.device = b.device → a.id ≠ b.id ∧ a.overlaps b = false))

theorem Compatible.symm {a b : Area} (h : Compatible a b) : Compatible b a := by
  intro hdevice
  obtain ⟨hid, hoverlap⟩ := h hdevice.symm
  exact ⟨hid.symm, by rw [Area.overlaps_comm, hoverlap]⟩

/-! ## One device -/

section Device

variable {device : UInt8} {areas : List Area}

theorem mem_octets (x : UInt8) : x ∈ octets :=
  List.mem_map.mpr ⟨x.toNat, List.mem_range.mpr x.toNat_lt, UInt8.ofNat_toNat⟩

theorem duplicateIds_eq_nil_iff :
    duplicateIds device areas = [] ↔ areas.Pairwise fun a b => a.id ≠ b.id := by
  have hcount : ∀ id : UInt8,
      (areas.map (·.id)).count id = (areas.filter (·.id = id)).length := by
    intro id
    rw [List.count, List.countP_map, List.countP_eq_length_filter]
    rfl
  unfold duplicateIds
  rw [List.filterMap_eq_nil_iff, ← List.pairwise_map (R := (· ≠ ·)), ← List.Nodup,
    List.nodup_iff_count_le_one]
  constructor
  · intro h id
    have hid := h id (mem_octets id)
    rw [hcount]
    split at hid
    · cases hid
    · rename_i hfew
      match hfound : areas.filter (·.id = id) with
      | [] =>
          rw [hfound]
          exact Nat.zero_le 1
      | [_] =>
          rw [hfound]
          exact Nat.le_refl 1
      | a :: b :: more => exact absurd hfound (hfew a b more)
  · intro h id _
    have hid := h id
    rw [hcount] at hid
    split
    · rename_i a b more hfound
      rw [hfound] at hid
      simp at hid
    · rfl

theorem sweepOrder_trans (a b c : Area) (hab : a.sweepOrder b = true)
    (hbc : b.sweepOrder c = true) : a.sweepOrder c = true := by
  simp only [Area.sweepOrder, Bool.or_eq_true, Bool.and_eq_true, decide_eq_true_eq, beq_iff_eq,
    UInt32.lt_iff_toNat_lt, UInt32.le_iff_toNat_le, ← UInt32.toNat_inj] at hab hbc ⊢
  omega

theorem sweepOrder_total (a b : Area) : (a.sweepOrder b || b.sweepOrder a) = true := by
  simp only [Area.sweepOrder, Bool.or_eq_true, Bool.and_eq_true, decide_eq_true_eq, beq_iff_eq,
    UInt32.lt_iff_toNat_lt, UInt32.le_iff_toNat_le, ← UInt32.toNat_inj]
  omega

theorem start_le_of_sweepOrder {a b : Area} (h : a.sweepOrder b = true) : a.start ≤ b.start := by
  simp only [Area.sweepOrder, Bool.or_eq_true, Bool.and_eq_true, decide_eq_true_eq, beq_iff_eq,
    UInt32.lt_iff_toNat_lt, ← UInt32.toNat_inj] at h
  simp only [Area.start]
  omega

/-- The areas that start before a given byte stand first. -/
theorem takeWhile_start_eq_filter (hsorted : areas.Pairwise fun a b => a.start ≤ b.start)
    (stop : Nat) :
    areas.takeWhile (fun b => b.start < stop) = areas.filter (fun b => b.start < stop) := by
  induction areas with
  | nil => rfl
  | cons a rest ih =>
      obtain ⟨hfirst, hrest⟩ := List.pairwise_cons.mp hsorted
      rw [List.takeWhile_cons, List.filter_cons]
      by_cases ha : a.start < stop
      · rw [decide_eq_true ha, ih hrest]
        rfl
      · have hnone : rest.filter (fun b => b.start < stop) = [] := by
          rw [List.filter_eq_nil_iff]
          intro b hb
          have hle := hfirst b hb
          rw [decide_eq_true_eq]
          omega
        rw [decide_eq_false ha, hnone]
        rfl

/-- In sweep order, an area is compared with all areas behind it. -/
theorem sweep_cons {a : Area} {rest : List Area}
    (hsorted : (a :: rest).Pairwise fun a b => a.start ≤ b.start) :
    sweep device (a :: rest) =
      (rest.filter fun b => a.overlaps b).map (.overlap device a) ++ sweep device rest := by
  obtain ⟨hfirst, hrest⟩ := List.pairwise_cons.mp hsorted
  rw [sweep, takeWhile_start_eq_filter hrest, List.filter_filter]
  congr 2
  refine List.filter_congr fun b hb => ?_
  rw [Area.overlaps_of_start_le (hfirst b hb), Bool.and_comm]

theorem sweep_eq_nil_iff (hsorted : areas.Pairwise fun a b => a.start ≤ b.start) :
    sweep device areas = [] ↔ areas.Pairwise fun a b => a.overlaps b = false := by
  induction areas with
  | nil => exact ⟨fun _ => .nil, fun _ => rfl⟩
  | cons a rest ih =>
      rw [sweep_cons hsorted, List.append_eq_nil_iff, List.map_eq_nil_iff, List.filter_eq_nil_iff,
        List.pairwise_cons, ih (List.pairwise_cons.mp hsorted).2]
      simp only [Bool.not_eq_true]

theorem deviceProblems_eq_nil_iff :
    deviceProblems areas device = [] ↔
      (areas.filter (·.device = device)).Pairwise fun a b =>
        a.id ≠ b.id ∧ a.overlaps b = false := by
  unfold deviceProblems
  split
  · rename_i hnone
    rw [hnone]
    exact ⟨fun _ => .nil, fun _ => rfl⟩
  · rename_i a more hsome
    have hsorted := List.pairwise_mergeSort sweepOrder_trans sweepOrder_total (a :: more)
    have hperm := List.mergeSort_perm (a :: more) Area.sweepOrder
    have hsymm : ∀ {x y : Area}, x.overlaps y = false → y.overlaps x = false := by
      intro x y h
      rw [Area.overlaps_comm, h]
    rw [hsome, List.append_eq_nil_iff, duplicateIds_eq_nil_iff,
      sweep_eq_nil_iff (hsorted.imp start_le_of_sweepOrder), hperm.pairwise_iff hsymm,
      List.pairwise_and_iff]

end Device

/-! ## Layouts -/

variable {areas : List Area}

theorem validate_eq_ok_iff : validate areas = .ok () ↔ areas.Pairwise Compatible := by
  have hproblems : validate areas = .ok () ↔ problems areas = [] := by
    unfold validate
    cases problems areas with
    | nil => exact ⟨fun _ => rfl, fun _ => rfl⟩
    | cons p more => exact ⟨nofun, nofun⟩
  rw [hproblems, problems, List.flatMap_eq_nil_iff]
  simp only [deviceProblems_eq_nil_iff, List.pairwise_filter, decide_eq_true_eq]
  constructor
  · intro h
    rw [List.pairwise_iff_forall_sublist]
    intro a b hab hdevice
    exact List.pairwise_iff_forall_sublist.mp (h b.device (mem_octets _)) hab hdevice rfl
  · intro h device _
    refine h.imp ?_
    rintro a b hab rfl hdevice
    exact hab hdevice.symm

/-- In a valid layout a byte of a device lies in one area at most. -/
theorem eq_of_covers (hvalid : validate areas = .ok ()) {a b : Area} (ha : a ∈ areas)
    (hb : b ∈ areas) (hdevice : a.device = b.device) {i : Nat} (hai : a.Covers i)
    (hbi : b.Covers i) : a = b := by
  by_contra hne
  have : Std.Symm Compatible := ⟨fun _ _ => Compatible.symm⟩
  obtain ⟨-, hoverlap⟩ := (validate_eq_ok_iff.mp hvalid).forall ha hb hne hdevice
  rw [Area.overlaps_eq_true_iff.mpr ⟨i, hai, hbi⟩] at hoverlap
  cases hoverlap

end Firmware.Flash
