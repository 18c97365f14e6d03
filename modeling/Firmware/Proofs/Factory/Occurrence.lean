import Firmware.Proofs.Factory.Kek
import Mathlib.Data.List.Infix

/-!
# Where a key is found

The search for a key goes on behind each occurrence that it finds, so it passes over those that
begin inside of one.  What it finds is therefore not only what occurs once:
`findUnique_iff_clustersAt` says that a key is found at its first occurrence when all others begin
inside of that one.

Two occurrences of which one begins inside of the other make the key `Bordered`: an end of it, not
all of it, is a beginning of it.  A key without a border is found exactly where it occurs once.  A
bordered one is also found in some binary in which it occurs twice.

The induction is on the bytes that are left.  The number of those to be passed over is part of the
statements on the way.
-/

namespace Firmware.Factory

/-- The bytes from an offset on begin with a pattern. -/
def OccursAt (pattern binary : Bytes) (offset : Nat) : Prop := pattern <+: binary.drop offset

instance (pattern binary : Bytes) (offset : Nat) : Decidable (OccursAt pattern binary offset) :=
  inferInstanceAs (Decidable (pattern <+: binary.drop offset))

/-- A pattern occurs at an offset and nowhere else. -/
def OccursOnlyAt (pattern binary : Bytes) (offset : Nat) : Prop :=
  OccursAt pattern binary offset ∧ ∀ i, OccursAt pattern binary i → i = offset

/-- A pattern occurs at an offset, and wherever else it occurs, it begins inside of that
occurrence. -/
def ClustersAt (pattern binary : Bytes) (offset : Nat) : Prop :=
  OccursAt pattern binary offset ∧
    ∀ i, OccursAt pattern binary i → offset ≤ i ∧ i < offset + pattern.length

/-- Some end of a pattern, not all of it, is a beginning of it. -/
def Bordered (pattern : Bytes) : Prop :=
  ∃ n, 0 < n ∧ n < pattern.length ∧ pattern.drop n <+: pattern

variable {pattern binary old new : Bytes} {offset skip found : Nat}

/-! ## The search -/

theorem occursAt_cons_zero {b : UInt8} :
    OccursAt pattern (b :: binary) 0 ↔ pattern.isPrefixOf (b :: binary) = true :=
  List.isPrefixOf_iff_prefix.symm

theorem add_length_le_of_occursAt {i : Nat} (hsome : pattern ≠ [])
    (h : OccursAt pattern binary i) : i + pattern.length ≤ binary.length := by
  have hlength := h.length_le
  have hpos := List.length_pos_iff.mpr hsome
  rw [List.length_drop] at hlength
  omega

theorem not_occursAt_nil {i : Nat} (hsome : pattern ≠ []) : ¬OccursAt pattern [] i := by
  intro h
  rw [OccursAt, List.drop_nil, List.prefix_nil] at h
  exact hsome h

/-- The first occurrence that does not begin in the bytes to be passed over, if all others behind
these begin inside of it. -/
structure ClustersFrom (pattern : Bytes) (skip : Nat) (binary : Bytes) (first : Nat) : Prop where
  notSkipped : skip ≤ first
  occurs : OccursAt pattern binary first
  inside : ∀ i, skip ≤ i → OccursAt pattern binary i → first ≤ i ∧ i < first + pattern.length

theorem clustersFrom_zero_iff {first : Nat} :
    ClustersFrom pattern 0 binary first ↔ ClustersAt pattern binary first :=
  ⟨fun h => ⟨h.occurs, fun i => h.inside i (Nat.zero_le i)⟩,
    fun h => ⟨Nat.zero_le _, h.1, fun i _ => h.2 i⟩⟩

/-- A byte that is passed over moves everything by one. -/
theorem clustersFrom_cons_iff {b : UInt8} {first : Nat} :
    ClustersFrom pattern (skip + 1) (b :: binary) first ↔
      ∃ n, first = n + 1 ∧ ClustersFrom pattern skip binary n := by
  constructor
  · rintro ⟨hskip, hoccurs, hinside⟩
    obtain ⟨n, rfl⟩ := Nat.exists_eq_add_one.mpr (Nat.zero_lt_of_lt hskip)
    refine ⟨n, rfl, Nat.le_of_succ_le_succ hskip, hoccurs, fun i hi hoccurs => ?_⟩
    have hi := hinside (i + 1) (Nat.succ_le_succ hi) hoccurs
    omega
  · rintro ⟨n, rfl, hskip, hoccurs, hinside⟩
    refine ⟨Nat.succ_le_succ hskip, hoccurs, fun i hi hoccurs => ?_⟩
    obtain ⟨i, rfl⟩ := Nat.exists_eq_add_one.mpr (Nat.zero_lt_of_lt hi)
    have hi := hinside i (Nat.le_of_succ_le_succ hi) hoccurs
    omega

/-- Where nothing occurs, a byte may as well be passed over. -/
theorem clustersFrom_one_iff {first : Nat} (hnone : ¬OccursAt pattern binary 0) :
    ClustersFrom pattern 1 binary first ↔ ClustersFrom pattern 0 binary first := by
  have hpos : ∀ {i}, OccursAt pattern binary i → 1 ≤ i := by
    intro i hoccurs
    exact Nat.one_le_iff_ne_zero.mpr fun hzero => hnone (hzero ▸ hoccurs)
  exact ⟨fun h => ⟨Nat.zero_le _, h.occurs, fun i _ hoccurs => h.inside i (hpos hoccurs) hoccurs⟩,
    fun h => ⟨hpos h.occurs, h.occurs, fun i _ => h.inside i (Nat.zero_le i)⟩⟩

/-- Behind the first byte nothing occurs that does not occur in the rest. -/
theorem forall_not_occursAt_cons_iff {b : UInt8} :
    (∀ i, skip + 1 ≤ i → ¬OccursAt pattern (b :: binary) i) ↔
      ∀ i, skip ≤ i → ¬OccursAt pattern binary i := by
  constructor
  · intro h i hi
    exact h (i + 1) (Nat.succ_le_succ hi)
  · intro h i hi
    obtain ⟨i, rfl⟩ := Nat.exists_eq_add_one.mpr (Nat.zero_lt_of_lt hi)
    exact h i (Nat.le_of_succ_le_succ hi)

theorem occurrencesFrom_eq_nil_iff (hsome : pattern ≠ []) :
    occurrencesFrom pattern offset skip binary = [] ↔
      ∀ i, skip ≤ i → ¬OccursAt pattern binary i := by
  induction binary generalizing offset skip with
  | nil => exact ⟨fun _ _ _ => not_occursAt_nil hsome, fun _ => rfl⟩
  | cons b bs ih =>
      cases skip with
      | succ skip => rw [occurrencesFrom, ih, forall_not_occursAt_cons_iff]
      | zero =>
          rw [occurrencesFrom]
          split
          · rename_i hhere
            constructor
            · intro h
              exact absurd h (List.cons_ne_nil _ _)
            · intro h
              exact absurd (occursAt_cons_zero.mpr hhere) (h 0 (Nat.le_refl 0))
          · rename_i hhere
            rw [ih, ← forall_not_occursAt_cons_iff]
            constructor
            · intro h i _
              cases i with
              | zero => exact mt occursAt_cons_zero.mp hhere
              | succ i => exact h (i + 1) (Nat.le_add_left 1 i)
            · intro h i _
              exact h i (Nat.zero_le i)

/-- One occurrence is found when there is one that is not passed over and inside of which all others
begin. -/
theorem occurrencesFrom_eq_singleton_iff (hsome : pattern ≠ []) :
    occurrencesFrom pattern offset skip binary = [found] ↔
      ∃ first, offset + first = found ∧ ClustersFrom pattern skip binary first := by
  induction binary generalizing offset skip with
  | nil =>
      refine ⟨nofun, ?_⟩
      rintro ⟨first, -, h⟩
      exact absurd h.occurs (not_occursAt_nil hsome)
  | cons b bs ih =>
      have hrest : ∀ skip, occurrencesFrom pattern (offset + 1) skip bs = [found] ↔
          ∃ first, offset + first = found ∧ ClustersFrom pattern (skip + 1) (b :: bs) first := by
        intro skip
        simp only [ih, clustersFrom_cons_iff]
        constructor
        · rintro ⟨n, rfl, h⟩
          exact ⟨n + 1, by omega, n, rfl, h⟩
        · rintro ⟨_, rfl, n, rfl, h⟩
          exact ⟨n, by omega, h⟩
      cases skip with
      | succ skip => exact hrest skip
      | zero =>
          rw [occurrencesFrom]
          split
          · rename_i hhere
            have hoccurs := occursAt_cons_zero.mpr hhere
            have hlength : pattern.length - 1 + 1 = pattern.length :=
              Nat.sub_add_cancel (List.length_pos_iff.mpr hsome)
            rw [List.cons.injEq, occurrencesFrom_eq_nil_iff hsome, ← forall_not_occursAt_cons_iff,
              hlength]
            constructor
            · rintro ⟨rfl, hnone⟩
              refine ⟨0, rfl, Nat.le_refl 0, hoccurs, fun i _ hi => ⟨Nat.zero_le i, ?_⟩⟩
              rw [Nat.zero_add]
              exact Nat.lt_of_not_le fun hbehind => hnone i hbehind hi
            · rintro ⟨first, rfl, -, -, hinside⟩
              obtain rfl := Nat.le_zero.mp (hinside 0 (Nat.le_refl 0) hoccurs).1
              refine ⟨rfl, fun i hbehind hi => ?_⟩
              have hlt := (hinside i (Nat.zero_le i) hi).2
              rw [Nat.zero_add] at hlt
              exact absurd hbehind (Nat.not_le_of_lt hlt)
          · rename_i hhere
            rw [hrest]
            simp only [clustersFrom_one_iff (mt occursAt_cons_zero.mp hhere)]

theorem findUnique_eq_ok_iff_clustersAt :
    findUnique binary pattern = .ok offset ↔ ClustersAt pattern binary offset := by
  unfold findUnique
  split
  · rename_i hempty
    obtain rfl := List.isEmpty_iff.mp hempty
    refine ⟨nofun, fun h => ?_⟩
    exact absurd (h.2 offset h.1).2 (Nat.lt_irrefl _)
  · rename_i hsome
    have hsome : pattern ≠ [] := mt List.isEmpty_iff.mpr hsome
    have hfound : occurrencesFrom pattern 0 0 binary = [offset] ↔
        ClustersAt pattern binary offset := by
      rw [occurrencesFrom_eq_singleton_iff hsome, ← clustersFrom_zero_iff]
      constructor
      · rintro ⟨first, hfirst, h⟩
        rwa [← hfirst, Nat.zero_add]
      · intro h
        exact ⟨offset, Nat.zero_add offset, h⟩
    rw [← hfound]
    split
    · rename_i n hn
      rw [hn, Except.ok.injEq, List.cons.injEq, and_iff_left rfl]
    · rename_i hother
      exact ⟨nofun, fun h => absurd h (hother offset)⟩

/-! ## Borders -/

/-- Two occurrences one inside of the other make a border. -/
theorem bordered_of_occursAt {i j : Nat} (hi : OccursAt pattern binary i)
    (hj : OccursAt pattern binary j) (hlt : i < j) (hinside : j < i + pattern.length) :
    Bordered pattern := by
  have hend : pattern.drop (j - i) <+: binary.drop j := by
    have hdrop := List.IsPrefix.drop hi (j - i)
    rwa [List.drop_drop, Nat.add_sub_cancel' (Nat.le_of_lt hlt)] at hdrop
  refine ⟨j - i, Nat.sub_pos_of_lt hlt, by omega, ?_⟩
  refine List.prefix_of_prefix_length_le hend hj ?_
  rw [List.length_drop]
  exact Nat.sub_le _ _

/-- A bordered pattern can be written so that it occurs once more inside of itself. -/
theorem Bordered.exists_clustersAt (h : Bordered pattern) :
    ∃ binary, ClustersAt pattern binary 0 ∧ ¬OccursOnlyAt pattern binary 0 := by
  obtain ⟨n, hpos, hlt, hborder⟩ := h
  have htake : (pattern.take n).length = n := by
    rw [List.length_take, Nat.min_eq_left (Nat.le_of_lt hlt)]
  have hsome : pattern ≠ [] := List.length_pos_iff.mp (Nat.zero_lt_of_lt hlt)
  have hfirst : OccursAt pattern (pattern.take n ++ pattern) 0 := by
    have hprefix := (List.prefix_append_right_inj (pattern.take n)).mpr hborder
    rwa [List.take_append_drop] at hprefix
  have hsecond : OccursAt pattern (pattern.take n ++ pattern) n := by
    rw [OccursAt, List.drop_left' htake]
  refine ⟨pattern.take n ++ pattern, ⟨hfirst, fun i hi => ?_⟩, fun honly => ?_⟩
  · have hroom := add_length_le_of_occursAt hsome hi
    rw [List.length_append, htake] at hroom
    omega
  · exact Nat.ne_of_gt hpos (honly.2 n hsecond)

theorem clustersAt_of_occursOnlyAt (hsome : pattern ≠ []) (h : OccursOnlyAt pattern binary offset) :
    ClustersAt pattern binary offset := by
  refine ⟨h.1, fun i hi => ?_⟩
  obtain rfl := h.2 i hi
  exact ⟨Nat.le_refl _, Nat.lt_add_of_pos_right (List.length_pos_iff.mpr hsome)⟩

theorem occursOnlyAt_of_clustersAt (hborder : ¬Bordered pattern)
    (h : ClustersAt pattern binary offset) : OccursOnlyAt pattern binary offset := by
  refine ⟨h.1, fun i hi => ?_⟩
  obtain ⟨hle, hinside⟩ := h.2 i hi
  refine Nat.le_antisymm (Nat.le_of_not_lt fun hlt => hborder ?_) hle
  exact bordered_of_occursAt h.1 hi hlt hinside

theorem not_occursOnlyAt_nil : ¬OccursOnlyAt [] binary offset := by
  rintro ⟨-, honly⟩
  have hzero := honly 0 List.nil_prefix
  have hone := honly 1 List.nil_prefix
  omega

/-! ## What is found -/

theorem exists_replaceSigningKey_iff :
    (∃ edited, replaceSigningKey binary old new = .ok edited) ↔
      old.length = new.length ∧ ∃ offset, findUnique binary old = .ok offset := by
  simp only [replaceSigningKey, Edit.result_eq_ok_iff, Edit.replaceSigningKey]
  split
  · rename_i hdifferent
    exact ⟨fun ⟨_, h⟩ => absurd h not_yields_throw, fun h => absurd h.1 hdifferent⟩
  · rename_i hsame
    simp only [yields_bind, Edit.yields_find, Edit.yields_write]
    constructor
    · rintro ⟨_, offset, _, ⟨hfound, -⟩, -⟩
      exact ⟨Decidable.not_not.mp hsame, offset, hfound⟩
    · rintro ⟨-, offset, hfound⟩
      exact ⟨_, offset, binary, ⟨hfound, rfl⟩, rfl⟩

/-- A key is found where it first occurs, if all other occurrences begin inside of that one.  This
is the only occurrence, whatever the binary, exactly for the keys that are not bordered. -/
theorem findUnique_iff_clustersAt (old : Bytes) :
    (∀ binary offset, findUnique binary old = .ok offset ↔ ClustersAt old binary offset) ∧
    ((∀ binary offset, findUnique binary old = .ok offset ↔ OccursOnlyAt old binary offset) ↔
      ¬Bordered old) ∧
    ∀ binary new,
      ((∃ edited, replaceSigningKey binary old new = .ok edited) ↔
        old.length = new.length ∧ ∃ offset, ClustersAt old binary offset) ∧
      ((∃ edited, replaceKek binary old new = .ok edited) ↔
        new.length ≤ old.length ∧
          ∃ offset, ClustersAt old binary offset ∧ FitsSlot old new offset binary) := by
  refine ⟨fun _ _ => findUnique_eq_ok_iff_clustersAt, ?_, fun binary new => ⟨?_, ?_⟩⟩
  · simp only [findUnique_eq_ok_iff_clustersAt]
    constructor
    · intro honly hborder
      obtain ⟨binary, hclusters, hnot⟩ := hborder.exists_clustersAt
      exact hnot ((honly binary 0).mp hclusters)
    · intro hborder binary offset
      refine ⟨occursOnlyAt_of_clustersAt hborder, fun h => clustersAt_of_occursOnlyAt ?_ h⟩
      rintro rfl
      exact not_occursOnlyAt_nil h
  · simp only [exists_replaceSigningKey_iff, findUnique_eq_ok_iff_clustersAt]
  · simp only [replaceKek, Edit.result_eq_ok_iff, exists_yields_replaceKek_iff,
      findUnique_eq_ok_iff_clustersAt]

/-- In three erased bytes a key of two erased bytes is found, although it occurs twice. -/
theorem findUnique_of_overlapping :
    findUnique [0xff, 0xff, 0xff] [0xff, 0xff] = .ok 0 ∧
      OccursAt [0xff, 0xff] [0xff, 0xff, 0xff] 0 ∧ OccursAt [0xff, 0xff] [0xff, 0xff, 0xff] 1 ∧
      ¬OccursOnlyAt [0xff, 0xff] [0xff, 0xff, 0xff] 0 := by
  refine ⟨by decide, by decide, by decide, fun h => ?_⟩
  exact absurd (h.2 1 (by decide)) (by decide)

end Firmware.Factory
