import Firmware.Proofs.Factory.Join

/-!
# When contents can be joined

`join_iff_joinable` : which contents are joined without an error, for areas on any devices and with
any names, and what the binary is then.

A run goes through the contents in the order of their offsets and compares each of them only with
the output so far.  `Ordered` says what all these comparisons come to: contents end before those
placed later begin.  In the order of the offsets this is the same as having no byte in common
(`before_iff_apart`), and that does not depend on the order.  So neither the order of the areas nor
the way in which equal offsets are sorted has a part in the result, which `Filled` describes without
any order.
-/

namespace Firmware.Factory

open Bytes (extendTo slice)
open Flash (Area Compatible)

variable {erase : UInt8} {areas : List Area} {blobs : Blobs} {out bin : Bytes}

/-! ## Runs -/

/-- Contents are placed one after the other behind an output. -/
inductive PlacesAll (erase : UInt8) : Bytes → List (Area × Bytes) → Bytes → Prop where
  | nil {out : Bytes} : PlacesAll erase out [] out
  | cons {out mid bin : Bytes} {x : Area × Bytes} {rest : List (Area × Bytes)} :
      Places erase out x mid → PlacesAll erase mid rest bin → PlacesAll erase out (x :: rest) bin

theorem foldlM_place_eq_ok_iff {parts : List (Area × Bytes)} :
    parts.foldlM (fun out (a, data) => place erase out a data) out = .ok bin ↔
      PlacesAll erase out parts bin := by
  induction parts generalizing out with
  | nil =>
      constructor
      · intro h
        cases h
        exact .nil
      · intro h
        cases h
        rfl
  | cons x rest ih =>
      rw [List.foldlM_cons, bind_eq_ok_iff]
      constructor
      · rintro ⟨mid, hplace, hrest⟩
        exact .cons (place_eq_ok_iff.mp hplace) (ih.mp hrest)
      · intro h
        cases h with
        | @cons _ mid _ _ _ hplace hrest => exact ⟨mid, place_eq_ok_iff.mpr hplace, ih.mpr hrest⟩

/-- The first byte behind contents. -/
def stopOf (x : Area × Bytes) : Nat := x.1.start + x.2.length

theorem Places.length {x : Area × Bytes} (h : Places erase out x bin) :
    x.2.length ≤ x.1.size.toNat ∧
      ((x.2 = [] ∧ bin = out) ∨ (x.2 ≠ [] ∧ out.length ≤ x.1.start ∧ bin.length = stopOf x)) := by
  cases h with
  | skipped a => exact ⟨Nat.zero_le _, .inl ⟨rfl, rfl⟩⟩
  | appended a data hsome horder hfits =>
      refine ⟨hfits, .inr ⟨hsome, horder, ?_⟩⟩
      rw [List.length_append, Bytes.length_extendTo, Nat.max_eq_left horder, stopOf]

/-- What a run has compared, and how far its output reaches. -/
structure Ordered (out : Bytes) (parts : List (Area × Bytes)) (bin : Bytes) : Prop where
  fits : ∀ x ∈ parts, x.2.length ≤ x.1.size.toNat
  room : ∀ x ∈ parts, x.2 ≠ [] → out.length ≤ x.1.start
  before : parts.Pairwise Before
  reaches : ∀ x ∈ parts, x.2 ≠ [] → stopOf x ≤ bin.length
  grows : out.length ≤ bin.length
  last : bin = out ∨ ∃ x ∈ parts, x.2 ≠ [] ∧ bin.length = stopOf x

theorem PlacesAll.ordered {parts : List (Area × Bytes)} (h : PlacesAll erase out parts bin) :
    Ordered out parts bin := by
  induction h with
  | nil => exact ⟨nofun, nofun, .nil, nofun, Nat.le_refl _, .inl rfl⟩
  | @cons out mid bin x rest hplace _ ih =>
      obtain ⟨hfits, ⟨hempty, rfl⟩ | ⟨hsome, horder, hstop⟩⟩ := hplace.length
      · exact
          { fits := List.forall_mem_cons.mpr ⟨hfits, ih.fits⟩
            room := List.forall_mem_cons.mpr ⟨fun hsome => absurd hempty hsome, ih.room⟩
            before := .cons (fun _ _ hsome => absurd hempty hsome) ih.before
            reaches := List.forall_mem_cons.mpr ⟨fun hsome => absurd hempty hsome, ih.reaches⟩
            grows := ih.grows
            last := ih.last.imp_right fun ⟨y, hy, hlast⟩ => ⟨y, List.mem_cons_of_mem x hy, hlast⟩ }
      · -- What is placed later begins behind this output, which ends with these contents.
        have hbehind : mid.length = x.1.start + x.2.length := hstop
        have hmid : out.length ≤ mid.length := by
          rw [hstop]
          exact Nat.le_trans horder (Nat.le_add_right _ _)
        have hlast : ∃ y ∈ x :: rest, y.2 ≠ [] ∧ bin.length = stopOf y := by
          rcases ih.last with rfl | ⟨y, hy, hlast⟩
          · exact ⟨x, List.mem_cons_self, hsome, hstop⟩
          · exact ⟨y, List.mem_cons_of_mem x hy, hlast⟩
        exact
          { fits := List.forall_mem_cons.mpr ⟨hfits, ih.fits⟩
            room := List.forall_mem_cons.mpr
              ⟨fun _ => horder, fun y hy hne => Nat.le_trans hmid (ih.room y hy hne)⟩
            before := .cons (fun y hy _ hne => hbehind ▸ ih.room y hy hne) ih.before
            reaches := List.forall_mem_cons.mpr ⟨fun _ => hstop ▸ ih.grows, ih.reaches⟩
            grows := Nat.le_trans hmid ih.grows
            last := .inr hlast }

theorem PlacesAll.holds {parts : List (Area × Bytes)} (h : PlacesAll erase out parts bin) :
    Holds erase parts out bin := by
  induction h with
  | nil => exact ⟨nofun, fun _ _ => rfl, fun hout _ => hout⟩
  | cons hplace hrest ih =>
      have hbefore := (PlacesAll.cons hplace hrest).ordered.before
      exact hplace.holds.cons (List.pairwise_cons.mp hbefore).1 ih

/-! ## No byte in common -/

/-- Contents fill no byte that other contents fill. -/
def Apart (x y : Area × Bytes) : Prop := ∀ i, Fills x i → ¬Fills y i

theorem Apart.symm {x y : Area × Bytes} (h : Apart x y) : Apart y x :=
  fun i hy hx => h i hx hy

/-- In the order of their starts, contents that have no byte in common end before others begin. -/
theorem before_iff_apart {x y : Area × Bytes} (hstart : x.1.start ≤ y.1.start) :
    Before x y ↔ Apart x y := by
  constructor
  · intro h i hx
    exact h.not_fills hx
  · intro h hx hy
    have hpos := List.length_pos_iff.mpr hy
    refine Nat.le_of_not_lt fun hlate => h y.1.start ⟨hstart, hlate⟩ ⟨Nat.le_refl _, ?_⟩
    exact Nat.lt_add_of_pos_right hpos

theorem apart_iff {x y : Area × Bytes} :
    Apart x y ↔ x.2 = [] ∨ y.2 = [] ∨ stopOf x ≤ y.1.start ∨ stopOf y ≤ x.1.start := by
  constructor
  · intro h
    by_cases hx : x.2 = []
    · exact .inl hx
    by_cases hy : y.2 = []
    · exact .inr (.inl hy)
    rcases Nat.le_total x.1.start y.1.start with hstart | hstart
    · exact .inr (.inr (.inl ((before_iff_apart hstart).mpr h hx hy)))
    · exact .inr (.inr (.inr ((before_iff_apart hstart).mpr h.symm hy hx)))
  · rintro (hx | hy | hstop | hstop) i hxi hyi
    · exact hxi.ne_nil hx
    · exact hyi.ne_nil hy
    · exact absurd (Nat.lt_of_lt_of_le hxi.2 hstop) (Nat.not_lt_of_le hyi.1)
    · exact absurd (Nat.lt_of_lt_of_le hyi.2 hstop) (Nat.not_lt_of_le hxi.1)

instance (x y : Area × Bytes) : Decidable (Apart x y) := decidable_of_iff' _ apart_iff

/-! ## Areas and their contents -/

/-- An area with its contents. -/
def filled (blobs : Blobs) (a : Area) : Area × Bytes := (a, contentOf blobs a)

theorem filled_of_lookup {a : Area} {data : Bytes} (h : blobs.lookup a.name = some data) :
    filled blobs a = (a, data) := by
  rw [filled, contentOf, h]
  rfl

theorem mem_of_mem_placed {x : Area × Bytes} (h : x ∈ placed blobs areas) :
    x.1 ∈ areas ∧ filled blobs x.1 = x := by
  obtain ⟨hmem, hlookup⟩ := mem_placed.mp h
  exact ⟨hmem, filled_of_lookup hlookup⟩

theorem lookup_of_contentOf {a : Area} (hsome : contentOf blobs a ≠ []) :
    blobs.lookup a.name = some (contentOf blobs a) := by
  unfold contentOf at *
  cases hlookup : blobs.lookup a.name with
  | none =>
      rw [hlookup] at hsome
      exact absurd rfl hsome
  | some data => rfl

/-- What is not placed is empty. -/
theorem filled_mem_placed {a : Area} (ha : a ∈ areas) (hsome : contentOf blobs a ≠ []) :
    filled blobs a ∈ placed blobs areas :=
  mem_placed.mpr ⟨ha, lookup_of_contentOf hsome⟩

theorem pairwise_apart_placed_iff :
    (placed blobs areas).Pairwise Apart ↔
      areas.Pairwise fun a b => Apart (filled blobs a) (filled blobs b) := by
  rw [pairwise_placed_iff Apart.symm]
  refine List.Pairwise.iff fun {a b} => ?_
  constructor
  · intro h i ha hb
    exact h _ (lookup_of_contentOf ha.ne_nil) _ (lookup_of_contentOf hb.ne_nil) i ha hb
  · intro h data hlookup data' hlookup'
    rwa [filled_of_lookup hlookup, filled_of_lookup hlookup'] at h

theorem pairwise_before_placed_iff :
    (placed blobs areas).Pairwise Before ↔
      areas.Pairwise fun a b => Apart (filled blobs a) (filled blobs b) := by
  rw [← pairwise_apart_placed_iff]
  constructor
  · intro h
    exact (h.and pairwise_start_placed).imp fun hxy => (before_iff_apart hxy.2).mp hxy.1
  · intro h
    exact (h.and pairwise_start_placed).imp fun hxy => (before_iff_apart hxy.2).mpr hxy.1

/-! ## The result -/

/-- Contents that can be joined, in whatever order the areas are. -/
structure Joinable (areas : List Area) (blobs : Blobs) : Prop where
  valid : Flash.validate areas = .ok ()
  named : ∀ x ∈ blobs, ∃ a ∈ areas, a.name = x.1
  fits : ∀ a ∈ areas, (contentOf blobs a).length ≤ a.size.toNat
  apart : areas.Pairwise fun a b => Apart (filled blobs a) (filled blobs b)

/-- A binary has the contents where their areas start and erased bytes everywhere else, and it ends
with contents. -/
structure Filled (erase : UInt8) (areas : List Area) (blobs : Blobs) (bin : Bytes) : Prop where
  inside : ∀ a ∈ areas,
    slice bin a.start (a.start + (contentOf blobs a).length) = contentOf blobs a
  outside : ∀ i < bin.length, (∀ a ∈ areas, ¬Fills (filled blobs a) i) → bin[i]? = some erase
  last : bin = [] ∨ ∃ a ∈ areas, contentOf blobs a ≠ [] ∧
    bin.length = a.start + (contentOf blobs a).length

/-! ### The order of the areas -/

theorem Joinable.perm {areas' : List Area} (hperm : areas'.Perm areas) (h : Joinable areas blobs) :
    Joinable areas' blobs where
  valid := by
    rw [Flash.validate_eq_ok_iff, hperm.pairwise_iff Compatible.symm]
    exact Flash.validate_eq_ok_iff.mp h.valid
  named x hx := by
    obtain ⟨a, ha, hname⟩ := h.named x hx
    exact ⟨a, hperm.mem_iff.mpr ha, hname⟩
  fits a ha := h.fits a (hperm.mem_iff.mp ha)
  apart := (hperm.pairwise_iff Apart.symm).mpr h.apart

theorem Filled.perm {areas' : List Area} (hperm : areas'.Perm areas)
    (h : Filled erase areas blobs bin) : Filled erase areas' blobs bin where
  inside a ha := h.inside a (hperm.mem_iff.mp ha)
  outside i hi hfree := h.outside i hi fun a ha => hfree a (hperm.mem_iff.mpr ha)
  last := h.last.imp_right fun ⟨a, ha, hlast⟩ => ⟨a, hperm.mem_iff.mpr ha, hlast⟩

/-! ### One binary -/

theorem Filled.getElem?_of_fills (h : Filled erase areas blobs bin) {a : Area} (ha : a ∈ areas)
    {i : Nat} (hi : Fills (filled blobs a) i) :
    bin[i]? = (contentOf blobs a)[i - a.start]? := by
  have hin : i - a.start < (contentOf blobs a).length := Nat.sub_lt_left_of_lt_add hi.1 hi.2
  have hstart : a.start ≤ i := hi.1
  rw [← Bytes.slice_eq_iff.mp (h.inside a ha) _ hin, Nat.add_sub_cancel' hstart]

theorem Filled.lt_length_of_fills (h : Filled erase areas blobs bin) {a : Area} (ha : a ∈ areas)
    {i : Nat} (hi : Fills (filled blobs a) i) : i < bin.length := by
  have hin : i - a.start < (contentOf blobs a).length := Nat.sub_lt_left_of_lt_add hi.1 hi.2
  have hbyte := h.getElem?_of_fills ha hi
  rw [List.getElem?_eq_getElem hin] at hbyte
  exact (List.getElem?_eq_some_iff.mp hbyte).1

theorem Filled.length_le {bin' : Bytes} (h : Filled erase areas blobs bin)
    (h' : Filled erase areas blobs bin') : bin.length ≤ bin'.length := by
  rcases h.last with rfl | ⟨a, ha, hsome, hlast⟩
  · exact Nat.zero_le _
  · -- The last byte of these contents is also a byte of the other binary.
    have hpos := List.length_pos_iff.mpr hsome
    have hfills : Fills (filled blobs a) (bin.length - 1) := by
      constructor
      · show a.start ≤ _
        omega
      · show _ < a.start + (contentOf blobs a).length
        omega
    exact Nat.le_of_pred_lt (h'.lt_length_of_fills ha hfills)

/-- Nothing else has the contents in their places. -/
theorem Filled.unique {bin' : Bytes} (h : Filled erase areas blobs bin)
    (h' : Filled erase areas blobs bin') : bin = bin' := by
  have hlength : bin.length = bin'.length := Nat.le_antisymm (h.length_le h') (h'.length_le h)
  refine List.ext_getElem? fun i => ?_
  rcases Nat.lt_or_ge i bin.length with hi | hi
  · by_cases hfills : ∃ a ∈ areas, Fills (filled blobs a) i
    · obtain ⟨a, ha, hfills⟩ := hfills
      rw [h.getElem?_of_fills ha hfills, h'.getElem?_of_fills ha hfills]
    · have hfree : ∀ a ∈ areas, ¬Fills (filled blobs a) i :=
        fun a ha hi => hfills ⟨a, ha, hi⟩
      rw [h.outside i hi hfree, h'.outside i (hlength ▸ hi) hfree]
  · rw [List.getElem?_eq_none hi, List.getElem?_eq_none (hlength ▸ hi)]

/-! ### The run of a join -/

theorem join_eq_ok_iff_placesAll :
    join blobs erase areas = .ok bin ↔
      Flash.validate areas = .ok () ∧ PlacesAll erase [] (placed blobs areas) bin ∧
        ∀ x ∈ blobs, ∃ a ∈ areas, a.name = x.1 := by
  rw [← foldlM_place_eq_ok_iff, ← unclaimed_eq_nil_iff]
  constructor
  · intro h
    unfold join at h
    split at h
    · cases h
    rename_i hvalid
    split at h
    · cases h
    rename_i out hrun
    split at h
    · rename_i hclaimed
      cases h
      exact ⟨hvalid, hrun, hclaimed⟩
    · cases h
  · rintro ⟨hvalid, hrun, hclaimed⟩
    rw [join, hvalid]
    simp only [hrun, hclaimed]

theorem filled_of_placesAll (h : PlacesAll erase [] (placed blobs areas) bin) :
    Filled erase areas blobs bin where
  inside a ha := by
    refine Bytes.slice_eq_iff.mpr fun i hi => ?_
    have hfills : Fills (filled blobs a) (a.start + i) :=
      ⟨Nat.le_add_right _ _, Nat.add_lt_add_left hi _⟩
    have hplaced := filled_mem_placed ha hfills.ne_nil
    have hin : a.start + i < bin.length :=
      Nat.lt_of_lt_of_le hfills.2 (h.ordered.reaches _ hplaced hfills.ne_nil)
    have hbyte : bin.getD (a.start + i) erase =
        (contentOf blobs a).getD (a.start + i - a.start) erase := h.holds.inside _ hplaced _ hfills
    rw [Nat.add_sub_cancel_left, List.getD_eq_getElem _ _ hin, List.getD_eq_getElem _ _ hi] at hbyte
    rw [List.getElem?_eq_getElem hin, List.getElem?_eq_getElem hi, hbyte]
  outside i hi hfree := by
    have hbyte := h.holds.outside i fun x hx hfills => by
      obtain ⟨hmem, hfilled⟩ := mem_of_mem_placed hx
      exact hfree x.1 hmem (hfilled.symm ▸ hfills)
    rw [List.getD_eq_getElem _ _ hi] at hbyte
    exact List.getElem?_eq_some_iff.mpr ⟨hi, hbyte⟩
  last := by
    refine h.ordered.last.imp_right fun ⟨x, hx, hsome, hlast⟩ => ?_
    obtain ⟨hmem, hfilled⟩ := mem_of_mem_placed hx
    rw [← hfilled] at hsome hlast
    exact ⟨x.1, hmem, hsome, hlast⟩

theorem joinable_of_placesAll (hvalid : Flash.validate areas = .ok ())
    (hnamed : ∀ x ∈ blobs, ∃ a ∈ areas, a.name = x.1)
    (h : PlacesAll erase [] (placed blobs areas) bin) : Joinable areas blobs where
  valid := hvalid
  named := hnamed
  fits a ha := by
    by_cases hsome : contentOf blobs a = []
    · rw [hsome]
      exact Nat.zero_le _
    · exact h.ordered.fits _ (filled_mem_placed ha hsome)
  apart := pairwise_before_placed_iff.mp h.ordered.before

theorem exists_placesAll (h : Joinable areas blobs) :
    ∃ bin, PlacesAll erase [] (placed blobs areas) bin := by
  have hbefore := pairwise_before_placed_iff.mpr h.apart
  have hfits : ∀ x ∈ placed blobs areas, x.2.length ≤ x.1.size.toNat := by
    intro x hx
    obtain ⟨hmem, hfilled⟩ := mem_of_mem_placed hx
    rw [← hfilled]
    exact h.fits x.1 hmem
  obtain ⟨bin, hrun, -⟩ := @exists_foldlM_place erase _ [] hfits hbefore fun _ _ _ => Nat.zero_le _
  exact ⟨bin, foldlM_place_eq_ok_iff.mp hrun⟩

theorem join_eq_ok_iff_filled :
    join blobs erase areas = .ok bin ↔ Joinable areas blobs ∧ Filled erase areas blobs bin := by
  rw [join_eq_ok_iff_placesAll]
  constructor
  · rintro ⟨hvalid, hplaces, hnamed⟩
    exact ⟨joinable_of_placesAll hvalid hnamed hplaces, filled_of_placesAll hplaces⟩
  · rintro ⟨hjoinable, hfilled⟩
    obtain ⟨bin', hplaces⟩ := exists_placesAll hjoinable
    obtain rfl := hfilled.unique (filled_of_placesAll hplaces)
    exact ⟨hjoinable.valid, hplaces, hjoinable.named⟩

theorem exists_join_iff_joinable :
    (∃ bin, join blobs erase areas = .ok bin) ↔ Joinable areas blobs := by
  constructor
  · rintro ⟨bin, hjoin⟩
    exact (join_eq_ok_iff_filled.mp hjoin).1
  · intro h
    obtain ⟨bin, hplaces⟩ := @exists_placesAll erase _ _ h
    exact ⟨bin, join_eq_ok_iff_placesAll.mpr ⟨h.valid, hplaces, h.named⟩⟩

/-- Contents are joined exactly when they are joinable.  The binary is the one that has them in
their places, and the order of the areas has no part in it. -/
theorem join_iff_joinable (blobs : Blobs) (erase : UInt8) (areas : List Area) :
    ((∃ bin, join blobs erase areas = .ok bin) ↔ Joinable areas blobs) ∧
    (∀ bin, join blobs erase areas = .ok bin ↔
      Joinable areas blobs ∧ Filled erase areas blobs bin) ∧
    ∀ areas', areas'.Perm areas →
      ∀ bin, join blobs erase areas' = .ok bin ↔ join blobs erase areas = .ok bin := by
  refine ⟨exists_join_iff_joinable, fun bin => join_eq_ok_iff_filled, fun areas' hperm bin => ?_⟩
  rw [join_eq_ok_iff_filled, join_eq_ok_iff_filled]
  constructor
  · rintro ⟨hjoinable, hfilled⟩
    exact ⟨hjoinable.perm hperm.symm, hfilled.perm hperm.symm⟩
  · rintro ⟨hjoinable, hfilled⟩
    exact ⟨hjoinable.perm hperm, hfilled.perm hperm⟩

namespace Shared

/-- Areas on two devices.  Two have the same name, two are at the same offset, and one is empty. -/
def layout : List Area :=
  [{ name := "key", id := 1, device := 1, offset := 9, size := 2 },
    { name := "app", id := 0, device := 0, offset := 4, size := 4 },
    { name := "end", id := 1, device := 0, offset := 9, size := 0 },
    { name := "log", id := 0, device := 1, offset := 4, size := 5 },
    { name := "key", id := 2, device := 0, offset := 2, size := 2 }]

def given : Blobs := [("app", [1, 2, 3]), ("key", [7]), ("log", [])]

/-- The key is in both of its places. -/
def binary : Bytes := [0xff, 0xff, 7, 0xff, 1, 2, 3, 0xff, 0xff, 7]

end Shared

/-- The sample and the same areas the other way round. -/
theorem join_iff_joinable_shared :
    Shared.layout.reverse.Perm Shared.layout ∧ Joinable Shared.layout Shared.given ∧
    join Shared.given 0xff Shared.layout = .ok Shared.binary ∧
    join Shared.given 0xff Shared.layout.reverse = .ok Shared.binary := by
  obtain ⟨-, hiff, horder⟩ := join_iff_joinable Shared.given 0xff Shared.layout
  have hperm : Shared.layout.reverse.Perm Shared.layout := List.reverse_perm _
  have hjoinable : Joinable Shared.layout Shared.given :=
    { valid := Flash.validate_eq_ok_iff.mpr (by decide)
      named := by decide
      fits := by decide
      apart := by decide }
  have hfilled : Filled 0xff Shared.layout Shared.given Shared.binary :=
    { inside := by decide
      outside := by decide
      last := .inr (by decide) }
  have hjoin := (hiff _).mpr ⟨hjoinable, hfilled⟩
  exact ⟨hperm, hjoinable, hjoin, (horder _ hperm _).mpr hjoin⟩

end Firmware.Factory
