import Firmware.Factory.Areas
import Firmware.Proofs.Bytes.Erased
import Firmware.Proofs.Except
import Firmware.Proofs.Flash.Layout

/-!
# Contents in their areas

`exists_join` : contents that fit into the areas of one device are joined without an error, and the
binary then holds them where the areas are and erased bytes everywhere else.

Contents are placed one after the other, each behind what is already there.  One step is described
by `Places`, and what it does to the content of the device by `Holds`; a whole run keeps this
description because no contents reach into those placed later (`exists_foldlM_place`).  That they do
not is where the layout comes in: in the order of their offsets, the areas of a device that are not
empty follow each other (`before_of_compatible`).
-/

namespace Firmware.Factory

open Bytes (Stripped extendTo)
open Flash (Area Compatible)

variable {erase : UInt8} {areas : List Area} {device : UInt8} {blobs : Blobs}

/-! ## One step -/

/-- A position that the contents of an area fill. -/
def Fills (x : Area × Bytes) (i : Nat) : Prop := x.1.start ≤ i ∧ i < x.1.start + x.2.length

instance (x : Area × Bytes) (i : Nat) : Decidable (Fills x i) :=
  inferInstanceAs (Decidable (x.1.start ≤ i ∧ i < x.1.start + x.2.length))

theorem Fills.ne_nil {x : Area × Bytes} {i : Nat} (h : Fills x i) : x.2 ≠ [] := by
  obtain ⟨a, data⟩ := x
  rintro rfl
  exact absurd h.2 (Nat.not_lt_of_le h.1)

/-- How contents can be placed behind an output. -/
inductive Places (erase : UInt8) (out : Bytes) : Area × Bytes → Bytes → Prop where
  | skipped (a : Area) : Places erase out (a, []) out
  | appended (a : Area) (data : Bytes) : data ≠ [] → out.length ≤ a.start →
      data.length ≤ a.size.toNat → Places erase out (a, data) (extendTo a.start erase out ++ data)

theorem place_eq_ok_iff {out out' : Bytes} {x : Area × Bytes} :
    place erase out x.1 x.2 = .ok out' ↔ Places erase out x out' := by
  obtain ⟨a, data⟩ := x
  unfold place
  constructor
  · intro h
    split at h
    · rename_i hempty
      cases h
      obtain rfl := List.isEmpty_iff.mp hempty
      exact .skipped a
    · rename_i hsome
      obtain ⟨horder, h⟩ := else_eq_ok_iff.mp h
      obtain ⟨hfits, h⟩ := else_eq_ok_iff.mp h
      cases h
      have horder := Nat.le_of_not_lt horder
      rw [Bytes.resize_eq_extendTo horder]
      exact .appended a data (mt List.isEmpty_iff.mpr hsome) horder (Nat.le_of_not_lt hfits)
  · intro h
    cases h with
    | skipped => rfl
    | appended _ _ hsome horder hfits =>
        rw [if_neg (mt List.isEmpty_iff.mp hsome), ← Bytes.resize_eq_extendTo horder]
        exact (if_neg (Nat.not_lt_of_le horder)).trans (if_neg (Nat.not_lt_of_le hfits))

/-- What a device holds after contents were placed behind an output. -/
structure Holds (erase : UInt8) (parts : List (Area × Bytes)) (out bin : Bytes) : Prop where
  inside : ∀ x ∈ parts, ∀ i, Fills x i → bin.getD i erase = x.2.getD (i - x.1.start) erase
  outside : ∀ i, (∀ x ∈ parts, ¬Fills x i) → bin.getD i erase = out.getD i erase
  stripped : Stripped erase out → (∀ x ∈ parts, Stripped erase x.2) → Stripped erase bin

theorem Places.holds {out out' : Bytes} {x : Area × Bytes} (h : Places erase out x out') :
    Holds erase [x] out out' := by
  cases h with
  | skipped a =>
      refine ⟨?_, fun _ _ => rfl, fun hout _ => hout⟩
      intro x hx i hi
      obtain rfl := List.mem_singleton.mp hx
      exact absurd hi.2 (Nat.not_lt_of_le hi.1)
  | appended a data hsome horder hfits =>
      have hlength : (extendTo a.start erase out).length = a.start := by
        rw [Bytes.length_extendTo, Nat.max_eq_left horder]
      refine ⟨?_, ?_, fun _ hparts => ?_⟩
      · intro x hx i hi
        obtain rfl := List.mem_singleton.mp hx
        rw [List.getD_append_right _ _ _ _ (Nat.le_trans (Nat.le_of_eq hlength) hi.1), hlength]
      · intro i hi
        have hfree := hi _ (List.mem_singleton_self _)
        rcases Nat.lt_or_ge i a.start with hlt | hge
        · rw [List.getD_append _ _ _ _ (hlength.symm ▸ hlt), Bytes.getD_extendTo]
        · have hbehind : a.start + data.length ≤ i := Nat.le_of_not_lt fun hlt => hfree ⟨hge, hlt⟩
          rw [List.getD_eq_default _ _ (by rw [List.length_append, hlength]; exact hbehind),
            List.getD_eq_default _ _ (Nat.le_trans horder hge)]
      · exact Bytes.stripped_append hsome (hparts _ (List.mem_singleton_self _))

/-! ## A run -/

/-- Contents end before others begin.  Empty contents are in nobody's way. -/
def Before (x y : Area × Bytes) : Prop :=
  x.2 ≠ [] → y.2 ≠ [] → x.1.start + x.2.length ≤ y.1.start

theorem Before.not_fills {x y : Area × Bytes} (h : Before x y) {i : Nat} (hx : Fills x i) :
    ¬Fills y i := by
  intro hy
  exact absurd (Nat.lt_of_lt_of_le hx.2 (h hx.ne_nil hy.ne_nil)) (Nat.not_lt_of_le hy.1)

theorem Holds.cons {x : Area × Bytes} {rest : List (Area × Bytes)} {out mid bin : Bytes}
    (hbefore : ∀ y ∈ rest, Before x y) (hx : Holds erase [x] out mid)
    (hrest : Holds erase rest mid bin) : Holds erase (x :: rest) out bin := by
  constructor
  · intro y hy i hi
    rcases List.mem_cons.mp hy with rfl | hy
    · rw [hrest.outside i fun z hz => (hbefore z hz).not_fills hi]
      exact hx.inside _ (List.mem_singleton_self _) i hi
    · exact hrest.inside y hy i hi
  · intro i hi
    obtain ⟨hfirst, hothers⟩ := List.forall_mem_cons.mp hi
    rw [hrest.outside i hothers]
    exact hx.outside i (List.forall_mem_singleton.mpr hfirst)
  · intro hout hparts
    obtain ⟨hfirst, hothers⟩ := List.forall_mem_cons.mp hparts
    exact hrest.stripped (hx.stripped hout (List.forall_mem_singleton.mpr hfirst)) hothers

/-- Contents that follow each other are all placed.  The output stays short enough for what is still
to come. -/
theorem exists_foldlM_place {parts : List (Area × Bytes)} {out : Bytes}
    (hfits : ∀ x ∈ parts, x.2.length ≤ x.1.size.toNat) (hbefore : parts.Pairwise Before)
    (hroom : ∀ x ∈ parts, x.2 ≠ [] → out.length ≤ x.1.start) :
    ∃ bin, parts.foldlM (fun out (a, data) => place erase out a data) out = .ok bin ∧
      Holds erase parts out bin := by
  induction parts generalizing out with
  | nil =>
      exact ⟨out, rfl, fun _ hx => absurd hx List.not_mem_nil, fun _ _ => rfl, fun hout _ => hout⟩
  | cons x rest ih =>
      obtain ⟨hfit, hfits⟩ := List.forall_mem_cons.mp hfits
      obtain ⟨hfirst, hbefore⟩ := List.pairwise_cons.mp hbefore
      obtain ⟨hspace, hlater⟩ := List.forall_mem_cons.mp hroom
      have hstep : ∃ mid, Places erase out x mid ∧
          ∀ y ∈ rest, y.2 ≠ [] → mid.length ≤ y.1.start := by
        obtain ⟨a, data⟩ := x
        rcases eq_or_ne data [] with rfl | hdata
        · exact ⟨out, .skipped a, hlater⟩
        · refine ⟨_, .appended a data hdata (hspace hdata) hfit, fun y hy hne => ?_⟩
          rw [List.length_append, Bytes.length_extendTo, Nat.max_eq_left (hspace hdata)]
          exact hfirst y hy hdata hne
      obtain ⟨mid, hplaces, hmid⟩ := hstep
      obtain ⟨bin, hrun, hholds⟩ := ih hfits hbefore hmid
      refine ⟨bin, ?_, hplaces.holds.cons hfirst hholds⟩
      rw [List.foldlM_cons]
      show (place erase out x.1 x.2 >>= _) = _
      rw [place_eq_ok_iff.mpr hplaces]
      exact hrun

/-! ## The contents of a device -/

theorem mem_placed {x : Area × Bytes} :
    x ∈ placed blobs areas ↔ x.1 ∈ areas ∧ blobs.lookup x.1.name = some x.2 := by
  obtain ⟨a, data⟩ := x
  simp only [placed, List.mem_mergeSort, List.mem_filterMap, Option.map_eq_some_iff,
    Prod.mk.injEq]
  constructor
  · rintro ⟨a, ha, data, hlookup, rfl, rfl⟩
    exact ⟨ha, hlookup⟩
  · rintro ⟨ha, hlookup⟩
    exact ⟨a, ha, data, hlookup, rfl, rfl⟩

/-- Contents are placed in the order of their offsets. -/
theorem pairwise_start_placed :
    (placed blobs areas).Pairwise fun x y => x.1.start ≤ y.1.start := by
  have hsorted := @List.pairwise_mergeSort (Area × Bytes)
    (fun x y => decide (x.1.offset ≤ y.1.offset))
    (by
      simp only [decide_eq_true_eq]
      intro x y z
      exact UInt32.le_trans)
    (by
      simp only [Bool.or_eq_true, decide_eq_true_eq]
      intro x y
      exact UInt32.le_total _ _)
  exact (hsorted _).imp fun h => UInt32.le_iff_toNat_le.mp (of_decide_eq_true h)

/-- The order does not matter to what holds for any two of the contents. -/
theorem pairwise_placed_iff {R : Area × Bytes → Area × Bytes → Prop}
    (hsymm : ∀ {x y}, R x y → R y x) :
    (placed blobs areas).Pairwise R ↔ areas.Pairwise fun a b =>
      ∀ data, blobs.lookup a.name = some data →
        ∀ data', blobs.lookup b.name = some data' → R (a, data) (b, data') := by
  have hperm := List.mergeSort_perm
    (areas.filterMap fun a => (blobs.lookup a.name).map fun data => (a, data))
    fun x y => decide (x.1.offset ≤ y.1.offset)
  rw [placed, hperm.pairwise_iff hsymm, List.pairwise_filterMap]
  refine List.Pairwise.iff fun {a b} => ?_
  constructor
  · intro h data hlookup data' hlookup'
    exact h _ (Option.map_eq_some_iff.mpr ⟨_, hlookup, rfl⟩)
      _ (Option.map_eq_some_iff.mpr ⟨_, hlookup', rfl⟩)
  · intro h x hx y hy
    obtain ⟨_, hlookup, rfl⟩ := Option.map_eq_some_iff.mp hx
    obtain ⟨_, hlookup', rfl⟩ := Option.map_eq_some_iff.mp hy
    exact h _ hlookup _ hlookup'

theorem pairwise_compatible_placed (hvalid : Flash.validate areas = .ok ()) :
    (placed blobs areas).Pairwise fun x y => Compatible x.1 y.1 := by
  rw [pairwise_placed_iff Compatible.symm]
  exact (Flash.validate_eq_ok_iff.mp hvalid).imp fun hab _ _ _ _ => hab

/-- In the order of their starts, compatible areas of one device keep their contents apart. -/
theorem before_of_compatible {x y : Area × Bytes} (hcompatible : Compatible x.1 y.1)
    (hdevice : x.1.device = y.1.device) (hstart : x.1.start ≤ y.1.start)
    (hx : x.2.length ≤ x.1.size.toNat) (hy : y.2.length ≤ y.1.size.toNat) : Before x y := by
  intro hxne hyne
  have hxpos := List.length_pos_iff.mpr hxne
  have hypos := List.length_pos_iff.mpr hyne
  obtain ⟨-, hoverlap⟩ := hcompatible hdevice
  refine Nat.le_of_not_lt fun hlate => ?_
  have hshared : x.1.overlaps y.1 = true := by
    refine Area.overlaps_eq_true_iff.mpr ⟨y.1.start, ⟨hstart, ?_⟩, Nat.le_refl _, ?_⟩
    · rw [Area.stop, ← Area.start]
      omega
    · rw [Area.stop, ← Area.start]
      omega
  rw [hoverlap] at hshared
  cases hshared

theorem unclaimed_eq_nil_iff :
    (blobs.map (·.1)).filter (fun name => areas.all (·.name ≠ name)) = [] ↔
      ∀ x ∈ blobs, ∃ a ∈ areas, a.name = x.1 := by
  simp only [List.filter_eq_nil_iff, List.forall_mem_map, List.all_eq_true, decide_eq_true_eq,
    ne_eq, not_forall, not_not, exists_prop]

/-- Contents for one device: each is named after an area of the device and not longer than it. -/
def FitsOn (device : UInt8) (areas : List Area) (blobs : Blobs) : Prop :=
  ∀ x ∈ blobs, ∃ a ∈ areas, a.device = device ∧ a.name = x.1 ∧ x.2.length ≤ a.size.toNat

instance (device : UInt8) (areas : List Area) (blobs : Blobs) :
    Decidable (FitsOn device areas blobs) :=
  inferInstanceAs (Decidable (∀ x ∈ blobs,
    ∃ a ∈ areas, a.device = device ∧ a.name = x.1 ∧ x.2.length ≤ a.size.toNat))

theorem mem_of_lookup {name : String} {data : Bytes} (h : blobs.lookup name = some data) :
    (name, data) ∈ blobs := by
  obtain ⟨front, back, rfl, -⟩ := List.lookup_eq_some_iff.mp h
  exact List.mem_append_right front List.mem_cons_self

/-- The contents of an area, which are empty if there are none. -/
def contentOf (blobs : Blobs) (a : Area) : Bytes := (blobs.lookup a.name).getD []

/-- In an area, what no contents fill is behind the contents of the area. -/
theorem length_contentOf_le {a : Area} (ha : a ∈ areas) {i : Nat}
    (hfree : ∀ x ∈ placed blobs areas, ¬Fills x (a.start + i)) :
    (contentOf blobs a).length ≤ i := by
  unfold contentOf
  cases hlookup : blobs.lookup a.name with
  | none => exact Nat.zero_le i
  | some data =>
      refine Nat.le_of_not_lt fun hlong => hfree (a, data) (mem_placed.mpr ⟨ha, hlookup⟩) ?_
      exact ⟨Nat.le_add_right _ _, Nat.add_lt_add_left hlong _⟩

/-- A binary holds the contents of the areas of a device and nothing else. -/
structure Joined (erase device : UInt8) (areas : List Area) (blobs : Blobs) (bin : Bytes) :
    Prop where
  inside : ∀ a ∈ areas, a.device = device → ∀ i < a.size.toNat,
    bin.getD (a.start + i) erase = (contentOf blobs a).getD i erase
  outside : ∀ i, (∀ a ∈ areas, a.device = device → ¬a.Covers i) → bin.getD i erase = erase
  stripped : (∀ x ∈ blobs, Stripped erase x.2) → Stripped erase bin

section Device

variable (hvalid : Flash.validate areas = .ok ()) (hnames : (areas.map (·.name)).Nodup)
  (hfits : FitsOn device areas blobs)

include hnames hfits

theorem fits_of_mem_placed {x : Area × Bytes} (hx : x ∈ placed blobs areas) :
    x.1.device = device ∧ x.2.length ≤ x.1.size.toNat := by
  obtain ⟨hmem, hlookup⟩ := mem_placed.mp hx
  obtain ⟨a, ha, hdevice, hname, hsize⟩ := hfits _ (mem_of_lookup hlookup)
  obtain rfl := List.inj_on_of_nodup_map hnames ha hmem hname
  exact ⟨hdevice, hsize⟩

theorem covers_of_fills {x : Area × Bytes} (hx : x ∈ placed blobs areas) {i : Nat}
    (hi : Fills x i) : x.1.Covers i := by
  have hsize := (fits_of_mem_placed hnames hfits hx).2
  exact ⟨hi.1, Nat.lt_of_lt_of_le hi.2 (Nat.add_le_add_left hsize _)⟩

include hvalid

/-- What is placed stays in its area, and no other area has a byte there. -/
theorem joined_of_holds {bin : Bytes} (h : Holds erase (placed blobs areas) [] bin) :
    Joined erase device areas blobs bin := by
  constructor
  · intro a ha hdevice i hi
    by_cases hfilled : ∃ x ∈ placed blobs areas, Fills x (a.start + i)
    · obtain ⟨x, hx, hfills⟩ := hfilled
      obtain ⟨hmem, hlookup⟩ := mem_placed.mp hx
      have hx_device := (fits_of_mem_placed hnames hfits hx).1
      obtain rfl := Flash.eq_of_covers hvalid hmem ha (hx_device.trans hdevice.symm)
        (covers_of_fills hnames hfits hx hfills)
        ⟨Nat.le_add_right _ _, Nat.add_lt_add_left hi _⟩
      rw [h.inside x hx _ hfills, contentOf, hlookup, Nat.add_sub_cancel_left]
      rfl
    · have hfree : ∀ x ∈ placed blobs areas, ¬Fills x (a.start + i) :=
        fun x hx hfills => hfilled ⟨x, hx, hfills⟩
      rw [h.outside _ hfree, List.getD_eq_default _ _ (length_contentOf_le ha hfree)]
      rfl
  · intro i hi
    rw [h.outside i fun x hx hfills => ?_]
    · rfl
    · exact hi x.1 (mem_placed.mp hx).1 (fits_of_mem_placed hnames hfits hx).1
        (covers_of_fills hnames hfits hx hfills)
  · intro hblobs
    refine h.stripped Bytes.stripped_nil fun x hx => ?_
    exact hblobs _ (mem_of_lookup (mem_placed.mp hx).2)

/-- Contents that fit are joined, and the binary holds them in their areas. -/
theorem exists_join : ∃ bin, join blobs erase areas = .ok bin ∧
    Joined erase device areas blobs bin := by
  have hbefore : (placed blobs areas).Pairwise Before := by
    refine ((pairwise_compatible_placed hvalid).and pairwise_start_placed).imp_of_mem ?_
    intro x y hx hy hxy
    obtain ⟨hx_device, hx_size⟩ := fits_of_mem_placed hnames hfits hx
    obtain ⟨hy_device, hy_size⟩ := fits_of_mem_placed hnames hfits hy
    exact before_of_compatible hxy.1 (hx_device.trans hy_device.symm) hxy.2 hx_size hy_size
  have hknown := unclaimed_eq_nil_iff.mpr fun x hx => by
    obtain ⟨a, ha, -, hname, -⟩ := hfits x hx
    exact ⟨a, ha, hname⟩
  obtain ⟨bin, hrun, hholds⟩ := @exists_foldlM_place erase (placed blobs areas) []
    (fun x hx => (fits_of_mem_placed hnames hfits hx).2) hbefore fun _ _ _ => Nat.zero_le _
  refine ⟨bin, ?_, joined_of_holds hvalid hnames hfits hholds⟩
  rw [join, hvalid]
  simp only [hrun, hknown]

end Device

end Firmware.Factory
