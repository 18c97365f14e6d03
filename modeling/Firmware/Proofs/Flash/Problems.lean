import Firmware.Proofs.Flash.Layout
import Mathlib.Data.List.Dedup
import Mathlib.Data.List.Perm.Basic
import Mathlib.Data.List.ProdSigma

/-!
# What is reported of a layout

A layout is checked device by device, with a sort, a sweep that leaves off early and a count of IDs.
What comes out of it can be said without any of these.  `overlapping` has one problem for each pair
of places in the layout whose areas are on one device and share a byte, and `repeating` one for each
device and ID that more than one area has.  `problems_exact` : these are the problems, each as often
as it stands there, and in some order.

The sort is followed element by element.  It puts each area into the sorted rest, behind the areas
that must come before it, and so the pairs of the sorted list are those of the layout, each of them
turned into sweep order: `pairs_mergeSort_perm`.
-/

namespace Firmware.Flash

/-! ## Pairs -/

section Pairs

variable {α : Type}

/-- The elements at any two places of a list, the one at the earlier place first. -/
def pairs : List α → List (α × α)
  | [] => []
  | a :: rest => rest.map (a, ·) ++ pairs rest

/-- An element in the middle stands in one pair with each of the others. -/
theorem pairs_middle_perm (a : α) (before behind : List α) :
    (pairs (before ++ a :: behind)).Perm
      (before.map (·, a) ++ behind.map (a, ·) ++ pairs (before ++ behind)) := by
  induction before with
  | nil => exact .refl _
  | cons b before ih =>
      have hfirst : ((before ++ a :: behind).map (b, ·)).Perm
          ((b, a) :: (before ++ behind).map (b, ·)) :=
        List.perm_middle.map _
      exact (hfirst.append ih).trans ((List.perm_append_comm_assoc _ _ _).cons _)

theorem pairs_filter (p : α → Bool) (l : List α) :
    pairs (l.filter p) = (pairs l).filter fun ab => p ab.1 && p ab.2 := by
  induction l with
  | nil => rfl
  | cons a rest ih =>
      rw [pairs, List.filter_append, List.filter_map, ← ih, List.filter_cons]
      cases ha : p a with
      | true =>
          rw [if_pos rfl, pairs]
          congr 2
          refine List.filter_congr fun b _ => ?_
          simp [ha]
      | false =>
          have hnone : rest.filter ((fun ab => p ab.1 && p ab.2) ∘ (a, ·)) = [] := by
            simp [List.filter_eq_nil_iff, ha]
          rw [hnone]
          rfl

/-- The parts of a list that each belong to one of some keys. -/
theorem flatMap_filter_perm {κ : Type} [DecidableEq κ] {keys : List κ} (hkeys : keys.Nodup)
    (key : α → κ) (l : List α) :
    (keys.flatMap fun k => l.filter (key · = k)).Perm (l.filter (key · ∈ keys)) := by
  induction keys with
  | nil => simp
  | cons k keys ih =>
      obtain ⟨hk, hkeys⟩ := List.nodup_cons.mp hkeys
      have hfirst : (l.filter (key · ∈ k :: keys)).filter (key · = k) = l.filter (key · = k) := by
        rw [List.filter_filter]
        refine List.filter_congr fun a _ => ?_
        by_cases ha : key a = k
        · simp [ha]
        · simp [ha]
      have hothers : (l.filter (key · ∈ k :: keys)).filter (fun a => !decide (key a = k)) =
          l.filter (key · ∈ keys) := by
        rw [List.filter_filter]
        refine List.filter_congr fun a _ => ?_
        by_cases ha : key a = k
        · simp [ha, hk]
        · simp [ha]
      have hsplit := List.filter_append_perm (key · = k) (l.filter (key · ∈ k :: keys))
      rw [hfirst, hothers] at hsplit
      exact ((ih hkeys).append_left _).trans hsplit

end Pairs

/-! ## Sorting -/

/-- A pair of areas in the order in which a sweep meets them. -/
def inSweepOrder (ab : Area × Area) : Area × Area :=
  if ab.1.sweepOrder ab.2 then ab else ab.swap

/-- Sorting turns some pairs around. -/
theorem pairs_mergeSort_perm (areas : List Area) :
    (pairs (areas.mergeSort Area.sweepOrder)).Perm ((pairs areas).map inSweepOrder) := by
  induction areas with
  | nil => simp [pairs]
  | cons a rest ih =>
      obtain ⟨before, behind, hsort, hrest, hbefore⟩ :=
        List.mergeSort_cons sweepOrder_trans sweepOrder_total a rest
      have hbehind : ∀ b ∈ behind, a.sweepOrder b = true := by
        have hsorted := List.pairwise_mergeSort sweepOrder_trans sweepOrder_total (a :: rest)
        rw [hsort, List.pairwise_append, List.pairwise_cons] at hsorted
        exact hsorted.2.1.1
      have hperm : (before ++ behind).Perm rest := by
        rw [← hrest]
        exact List.mergeSort_perm _ _
      have hturned : before.map (·, a) ++ behind.map (a, ·) =
          (before ++ behind).map fun b => inSweepOrder (a, b) := by
        rw [List.map_append]
        congr 1
        · refine List.map_congr_left fun b hb => ?_
          have hb := hbefore b hb
          rw [Bool.not_eq_true'] at hb
          simp [inSweepOrder, hb]
        · refine List.map_congr_left fun b hb => ?_
          simp [inSweepOrder, hbehind b hb]
      rw [hrest] at ih
      rw [hsort, pairs, List.map_append, List.map_map]
      refine (pairs_middle_perm a before behind).trans ?_
      rw [hturned]
      exact (hperm.map _).append ih

/-! ## Overlaps -/

/-- Two areas, on whatever device, have a byte in common. -/
def Area.Meets (a b : Area) : Prop := ∃ i, a.Covers i ∧ b.Covers i

instance (a b : Area) : Decidable (a.Meets b) := decidable_of_iff _ Area.overlaps_eq_true_iff

/-- The problem of two areas that overlap on a device. -/
def overlapOf (device : UInt8) (ab : Area × Area) : Problem :=
  .overlap device (inSweepOrder ab).1 (inSweepOrder ab).2

/-- One problem for each pair of places with areas that overlap. -/
def overlapping (areas : List Area) : List Problem :=
  ((pairs areas).filter fun ab => ab.1.device = ab.2.device ∧ ab.1.Meets ab.2).map fun ab =>
    overlapOf ab.1.device ab

section Overlaps

variable {device : UInt8} {areas : List Area}

/-- The areas in sweep order are compared in pairs. -/
theorem sweep_eq_map_pairs (hsorted : areas.Pairwise fun a b => a.start ≤ b.start) :
    sweep device areas =
      ((pairs areas).filter fun ab => ab.1.overlaps ab.2).map fun ab =>
        .overlap device ab.1 ab.2 := by
  induction areas with
  | nil => rfl
  | cons a rest ih =>
      rw [sweep_cons hsorted, pairs, List.filter_append, List.map_append, List.filter_map,
        List.map_map, ih (List.pairwise_cons.mp hsorted).2]
      rfl

theorem overlaps_inSweepOrder (ab : Area × Area) :
    (inSweepOrder ab).1.overlaps (inSweepOrder ab).2 = ab.1.overlaps ab.2 := by
  unfold inSweepOrder
  split
  · rfl
  · exact Area.overlaps_comm _ _

theorem sweep_mergeSort_perm :
    (sweep device (areas.mergeSort Area.sweepOrder)).Perm
      (((pairs areas).filter fun ab => ab.1.Meets ab.2).map (overlapOf device)) := by
  have hsorted := List.pairwise_mergeSort sweepOrder_trans sweepOrder_total areas
  have hmeets : ∀ ab : Area × Area,
      decide (ab.1.Meets ab.2) = ab.1.overlaps ab.2 := by
    intro ab
    rw [Bool.eq_iff_iff, decide_eq_true_eq]
    exact Area.overlaps_eq_true_iff.symm
  rw [sweep_eq_map_pairs (hsorted.imp start_le_of_sweepOrder)]
  refine (((pairs_mergeSort_perm areas).filter _).map _).trans ?_
  rw [List.filter_map, List.map_map]
  simp only [Function.comp_def, overlaps_inSweepOrder, hmeets]
  exact .refl _

theorem nodup_octets : octets.Nodup := by
  refine (List.nodup_map_iff_inj_on List.nodup_range).mpr fun m hm n hn h => ?_
  rw [← UInt8.toNat_ofNat_of_lt' (List.mem_range.mp hm), h,
    UInt8.toNat_ofNat_of_lt' (List.mem_range.mp hn)]

/-- The sweeps of all devices find the pairs of areas that overlap on one of them. -/
theorem flatMap_sweep_perm :
    (octets.flatMap fun device =>
        sweep device ((areas.filter (·.device = device)).mergeSort Area.sweepOrder)).Perm
      (overlapping areas) := by
  have hdevice : ∀ device, ((pairs (areas.filter (·.device = device))).filter fun ab =>
      ab.1.Meets ab.2).map (overlapOf device) =
        (((pairs areas).filter fun ab => ab.1.device = ab.2.device ∧ ab.1.Meets ab.2).filter
          (·.1.device = device)).map fun ab => overlapOf ab.1.device ab := by
    intro device
    rw [pairs_filter, List.filter_filter, List.filter_filter]
    have hsame : ((pairs areas).filter fun ab => decide (ab.1.Meets ab.2) &&
        (decide (ab.1.device = device) && decide (ab.2.device = device))) =
          (pairs areas).filter fun ab => decide (ab.1.device = device) &&
            decide (ab.1.device = ab.2.device ∧ ab.1.Meets ab.2) := by
      refine List.filter_congr fun ab _ => ?_
      by_cases hfirst : ab.1.device = device
      · simp [hfirst, eq_comm, Bool.and_comm]
      · simp [hfirst]
    rw [hsame]
    refine List.map_congr_left fun ab hab => ?_
    have hfirst : ab.1.device = device := by
      have hkept := (List.mem_filter.mp hab).2
      rw [Bool.and_eq_true, decide_eq_true_eq] at hkept
      exact hkept.1
    rw [hfirst]
  refine (List.Perm.flatMap_left _ fun _ _ => sweep_mergeSort_perm).trans ?_
  simp only [hdevice]
  rw [← List.map_flatMap]
  refine (flatMap_filter_perm nodup_octets _ _).map _ |>.trans ?_
  simp only [mem_octets, decide_true, List.filter_true]
  exact .refl _

end Overlaps

/-! ## IDs -/

/-- The problem of a device and an ID, if more than one area has both. -/
def repetitionOf? (areas : List Area) (key : UInt8 × UInt8) : Option Problem :=
  let holders := areas.filter fun a => (a.device, a.id) = key
  if 1 < holders.length then some (.duplicateId key.1 key.2 (holders.map (·.name))) else none

/-- One problem for each device and ID that more than one area has. -/
def repeating (areas : List Area) : List Problem :=
  (areas.map fun a => (a.device, a.id)).dedup.filterMap (repetitionOf? areas)

section Repetitions

variable {areas : List Area}

theorem duplicateIds_eq (device : UInt8) :
    duplicateIds device (areas.filter (·.device = device)) =
      octets.filterMap fun id => repetitionOf? areas (device, id) := by
  refine List.filterMap_congr fun id _ => ?_
  have hholders : (areas.filter (·.device = device)).filter (·.id = id) =
      areas.filter fun a => (a.device, a.id) = (device, id) := by
    rw [List.filter_filter]
    refine List.filter_congr fun a _ => ?_
    simp [Bool.and_comm]
  unfold repetitionOf?
  rw [hholders]
  generalize areas.filter (fun a => (a.device, a.id) = (device, id)) = holders
  match holders with
  | [] => rfl
  | [_] => rfl
  | _ :: _ :: _ => simp

theorem repetitionOf?_eq_none {key : UInt8 × UInt8}
    (h : key ∉ areas.map fun a => (a.device, a.id)) : repetitionOf? areas key = none := by
  have hnone : (areas.filter fun a => (a.device, a.id) = key) = [] := by
    rw [List.filter_eq_nil_iff]
    intro a ha hkey
    exact h (List.mem_map.mpr ⟨a, ha, of_decide_eq_true hkey⟩)
  unfold repetitionOf?
  rw [hnone]
  rfl

theorem flatMap_duplicateIds_perm :
    (octets.flatMap fun device => duplicateIds device (areas.filter (·.device = device))).Perm
      (repeating areas) := by
  let keys := areas.map fun a => (a.device, a.id)
  have hfilter : (octets ×ˢ octets).filterMap (repetitionOf? areas) =
      ((octets ×ˢ octets).filter (· ∈ keys)).filterMap (repetitionOf? areas) := by
    rw [List.filterMap_filter]
    refine List.filterMap_congr fun key _ => ?_
    by_cases hkey : key ∈ keys
    · rw [decide_eq_true hkey, if_pos rfl]
    · rw [decide_eq_false hkey, repetitionOf?_eq_none hkey]
      rfl
  have hkeys : ((octets ×ˢ octets).filter (· ∈ keys)).Perm keys.dedup := by
    rw [List.perm_ext_iff_of_nodup ((nodup_octets.product nodup_octets).filter _)
      (List.nodup_dedup _)]
    intro key
    rw [List.mem_filter, List.mem_dedup, decide_eq_true_eq]
    exact and_iff_right (List.mem_product.mpr ⟨mem_octets _, mem_octets _⟩)
  simp only [duplicateIds_eq]
  have hproduct : (octets.flatMap fun device => octets.filterMap fun id =>
      repetitionOf? areas (device, id)) = (octets ×ˢ octets).filterMap (repetitionOf? areas) := by
    show _ = (octets.flatMap fun device => octets.map (Prod.mk device)).filterMap _
    rw [List.filterMap_flatMap]
    simp only [List.filterMap_map]
    rfl
  rw [hproduct, hfilter]
  exact hkeys.filterMap _

end Repetitions

/-! ## All problems -/

variable {areas : List Area}

theorem deviceProblems_eq (device : UInt8) :
    deviceProblems areas device =
      duplicateIds device (areas.filter (·.device = device)) ++
        sweep device ((areas.filter (·.device = device)).mergeSort Area.sweepOrder) := by
  unfold deviceProblems
  split
  · rename_i hnone
    rw [hnone, duplicateIds_eq_nil_iff.mpr .nil, List.mergeSort_nil]
    rfl
  · rename_i a more hsome
    rw [hsome]

theorem problems_perm : (problems areas).Perm (overlapping areas ++ repeating areas) := by
  have hdevices : deviceProblems areas = fun device =>
      duplicateIds device (areas.filter (·.device = device)) ++
        sweep device ((areas.filter (·.device = device)).mergeSort Area.sweepOrder) :=
    funext deviceProblems_eq
  rw [problems, hdevices]
  refine (List.flatMap_append_perm _ _ _).symm.trans ?_
  exact (flatMap_duplicateIds_perm.append flatMap_sweep_perm).trans List.perm_append_comm

theorem compatible_iff (a b : Area) :
    Compatible a b ↔ a.device = b.device → ¬a.Meets b ∧ a.id ≠ b.id := by
  unfold Compatible
  rw [Area.Meets, ← Area.overlaps_eq_true_iff, Bool.not_eq_true, and_comm]

namespace Crowded

/-- Areas that share an offset or an ID, an empty one inside another, and two at the end of the
32-bit range. -/
def layout : List Area :=
  [⟨"whole", 1, 0, 0x1000, 0x3000⟩, ⟨"inner", 1, 0, 0x1000, 0x100⟩, ⟨"empty", 2, 0, 0x1800, 0⟩,
    ⟨"last", 3, 0, 0xfffff000, 0x2000⟩, ⟨"end", 4, 0, 0xffffffff, 1⟩,
    ⟨"apart", 1, 1, 0x1000, 0x3000⟩]

/-- Their problems. -/
def expected : List Problem :=
  [.overlap 0 ⟨"inner", 1, 0, 0x1000, 0x100⟩ ⟨"whole", 1, 0, 0x1000, 0x3000⟩,
    .overlap 0 ⟨"last", 3, 0, 0xfffff000, 0x2000⟩ ⟨"end", 4, 0, 0xffffffff, 1⟩,
    .duplicateId 0 1 ["whole", "inner"]]

theorem expected_eq : overlapping layout ++ repeating layout = expected := by decide

end Crowded

/-- The problems of a layout are its overlaps, one for each pair of places, and its repeated IDs.  A
layout is valid when any two areas on one device are disjoint and have different IDs, and so it
is in whatever order its areas are listed. -/
theorem problems_exact (areas : List Area) :
    (problems areas).Perm (overlapping areas ++ repeating areas) ∧
      (validate areas = .ok () ↔
        areas.Pairwise fun a b => a.device = b.device → ¬a.Meets b ∧ a.id ≠ b.id) ∧
      ∀ listed, areas.Perm listed → (validate listed = .ok () ↔ validate areas = .ok ()) := by
  refine ⟨problems_perm, ?_, fun listed hlisted => ?_⟩
  · simp only [validate_eq_ok_iff, ← compatible_iff]
  · rw [validate_eq_ok_iff, validate_eq_ok_iff]
    exact hlisted.symm.pairwise_iff Compatible.symm

theorem problems_exact_crowded :
    (problems Crowded.layout).Perm Crowded.expected ∧
      Crowded.layout.Perm Crowded.layout.reverse ∧
      (validate Crowded.layout.reverse = .ok () ↔ validate Crowded.layout = .ok ()) := by
  obtain ⟨hproblems, -, hlisted⟩ := problems_exact Crowded.layout
  have hreverse := (List.reverse_perm Crowded.layout).symm
  rw [Crowded.expected_eq] at hproblems
  exact ⟨hproblems, hreverse, hlisted _ hreverse⟩

end Firmware.Flash
