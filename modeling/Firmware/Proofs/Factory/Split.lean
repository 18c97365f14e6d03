import Firmware.Proofs.Factory.Join

/-!
# Cutting a binary into its areas and joining them again

Two laws tie `split` and `join` together on a valid layout whose areas have distinct names.
`split_join` : what was joined from contents for one device is cut into the same contents again, and
into empty ones where there were none.  `join_split` : what was cut for one device is joined to the
binary again, without its bytes outside the areas of the device and without erased bytes at the end.

`CutFrom` says what a split comes to, as `Joined` does for a join, and the rest is proved byte by
byte.  The content of an area and the result of a join are stripped, and `Bytes.Stripped.ext` makes
two stripped strings equal that agree everywhere on an erased device.  So nothing has to be said of
areas that reach over the end of the binary, that lie behind it, or that are empty.
-/

namespace Firmware.Factory

open Bytes (Stripped trimEnd slice)
open Flash (Area)

variable {erase device : UInt8} {areas : List Area} {blobs : Blobs} {binary : Bytes}

/-! ## The content of an area -/

/-- Clipping to the length of the binary changes nothing, since a slice ends there anyway. -/
theorem areaContent_eq (binary : Bytes) (erase : UInt8) (a : Area) :
    areaContent binary erase a = trimEnd erase (slice binary a.start a.stop) := by
  have hoffset := a.offset.toNat_lt
  have hsize := a.size.toNat_lt
  have hclip : Bytes.clipRange a.offset.toUInt64 a.size.toUInt64 binary.length =
      (min a.start binary.length, min a.stop binary.length) := by
    simp only [Bytes.clipRange, Area.start, Area.stop, UInt32.toNat_toUInt64, UInt64.size]
    rw [Nat.min_eq_left (Nat.le_sub_one_of_lt (by omega))]
  rw [areaContent, hclip]
  simp only [Bytes.slice_clip]

theorem stripped_areaContent (binary : Bytes) (erase : UInt8) (a : Area) :
    Stripped erase (areaContent binary erase a) := by
  rw [areaContent_eq]
  exact Bytes.stripped_trimEnd _

theorem length_areaContent_le (binary : Bytes) (erase : UInt8) (a : Area) :
    (areaContent binary erase a).length ≤ a.size.toNat := by
  rw [areaContent_eq]
  refine Nat.le_trans (Bytes.length_trimEnd_le _) (Nat.le_trans (Bytes.length_slice_le _ _ _) ?_)
  exact Nat.le_of_eq (Nat.add_sub_cancel_left _ _)

theorem getD_areaContent (a : Area) (i : Nat) :
    (areaContent binary erase a).getD i erase =
      if i < a.size.toNat then binary.getD (a.start + i) erase else erase := by
  rw [areaContent_eq, Bytes.getD_trimEnd, Bytes.getD_slice, Area.stop, Area.start,
    Nat.add_sub_cancel_left]

/-! ## Cutting -/

theorem firstRepeated_eq_none_iff {seen names : List String} :
    firstRepeated seen names = none ↔ names.Nodup ∧ ∀ n ∈ names, n ∉ seen := by
  induction names generalizing seen with
  | nil => exact ⟨fun _ => ⟨.nil, nofun⟩, fun _ => rfl⟩
  | cons n names ih =>
      rw [firstRepeated, List.nodup_cons, List.forall_mem_cons]
      split
      · rename_i hseen
        exact ⟨nofun, fun h => absurd hseen h.2.1⟩
      · rename_i hnew
        rw [ih]
        constructor
        · rintro ⟨hnodup, hothers⟩
          refine ⟨⟨fun hn => hothers n hn List.mem_cons_self, hnodup⟩, hnew, fun m hm hseen => ?_⟩
          exact hothers m hm (List.mem_cons_of_mem _ hseen)
        · rintro ⟨⟨hfirst, hnodup⟩, -, hothers⟩
          refine ⟨hnodup, fun m hm hseen => ?_⟩
          rcases List.mem_cons.mp hseen with rfl | hseen
          · exact hfirst hm
          · exact hothers m hm hseen

/-- With distinct names, looking a name up finds whatever is listed under it. -/
theorem lookup_eq_some_iff_mem (hnodup : (blobs.map (·.1)).Nodup) {name : String} {data : Bytes} :
    blobs.lookup name = some data ↔ (name, data) ∈ blobs := by
  refine ⟨mem_of_lookup, fun hmem => ?_⟩
  cases hfound : blobs.lookup name with
  | none =>
      have hother := List.lookup_eq_none_iff.mp hfound _ hmem
      simp at hother
  | some other =>
      have heq := List.inj_on_of_nodup_map hnodup hmem (mem_of_lookup hfound) rfl
      exact congrArg some (Prod.mk.inj heq).2.symm

/-- Contents list the areas of a device with what a binary has in them, each one once. -/
structure CutFrom (binary : Bytes) (device erase : UInt8) (areas : List Area) (contents : Blobs) :
    Prop where
  nodup : (contents.map (·.1)).Nodup
  mem_iff : ∀ name data, (name, data) ∈ contents ↔
    ∃ a ∈ areas, a.device = device ∧ a.name = name ∧ areaContent binary erase a = data

namespace CutFrom

variable {contents : Blobs} (h : CutFrom binary device erase areas contents)

include h

theorem lookup_eq_some_iff {name : String} {data : Bytes} :
    contents.lookup name = some data ↔
      ∃ a ∈ areas, a.device = device ∧ a.name = name ∧ areaContent binary erase a = data := by
  rw [lookup_eq_some_iff_mem h.nodup, h.mem_iff]

theorem contentOf_eq {a : Area} (ha : a ∈ areas) (hdevice : a.device = device) :
    contentOf contents a = areaContent binary erase a := by
  have hlookup := h.lookup_eq_some_iff.mpr ⟨a, ha, hdevice, rfl, rfl⟩
  rw [contentOf, hlookup, Option.getD_some]

theorem fitsOn : FitsOn device areas contents := by
  rintro ⟨name, data⟩ hx
  obtain ⟨a, ha, hdevice, hname, rfl⟩ := (h.mem_iff name data).mp hx
  exact ⟨a, ha, hdevice, hname, length_areaContent_le binary erase a⟩

theorem stripped : ∀ x ∈ contents, Stripped erase x.2 := by
  rintro ⟨name, data⟩ hx
  obtain ⟨a, -, -, -, rfl⟩ := (h.mem_iff name data).mp hx
  exact stripped_areaContent binary erase a

end CutFrom

/-- A valid layout with distinct names cuts every binary. -/
theorem exists_split (hvalid : Flash.validate areas = .ok ())
    (hnames : (areas.map (·.name)).Nodup) (binary : Bytes) (device erase : UInt8) :
    ∃ contents, split binary device areas erase = .ok contents ∧
      CutFrom binary device erase areas contents := by
  let here := areas.filter (·.device = device)
  let cut := here.map fun a => (a.name, areaContent binary erase a)
  have hnodup : (here.map (·.name)).Nodup := hnames.sublist (List.filter_sublist.map _)
  have hdistinct : firstRepeated [] (here.map (·.name)) = none :=
    firstRepeated_eq_none_iff.mpr ⟨hnodup, fun _ _ => List.not_mem_nil⟩
  refine ⟨cut.mergeSort fun x y => decide (x.1 ≤ y.1), ?_, ?_, fun name data => ?_⟩
  · rw [split, hvalid]
    simp only [hdistinct, here, cut]
  · refine ((List.mergeSort_perm _ _).map _).nodup_iff.mpr ?_
    rw [List.map_map]
    exact hnodup
  · rw [List.mem_mergeSort]
    simp only [cut, here, List.mem_map, List.mem_filter, decide_eq_true_eq, Prod.mk.injEq,
      and_assoc]

/-! ## What is joined -/

theorem stripped_contentOf (hstripped : ∀ x ∈ blobs, Stripped erase x.2) (a : Area) :
    Stripped erase (contentOf blobs a) := by
  unfold contentOf
  cases hlookup : blobs.lookup a.name with
  | none => exact Bytes.stripped_nil
  | some data => exact hstripped _ (mem_of_lookup hlookup)

theorem length_contentOf_le_size (hnames : (areas.map (·.name)).Nodup)
    (hfits : FitsOn device areas blobs) {a : Area} (ha : a ∈ areas) :
    (contentOf blobs a).length ≤ a.size.toNat := by
  unfold contentOf
  cases hlookup : blobs.lookup a.name with
  | none => exact Nat.zero_le _
  | some data =>
      have hplaced : (a, data) ∈ placed blobs areas := mem_placed.mpr ⟨ha, hlookup⟩
      exact (fits_of_mem_placed hnames hfits hplaced).2

/-- A binary that holds stripped contents has them in its areas. -/
theorem Joined.areaContent_eq (hnames : (areas.map (·.name)).Nodup)
    (hfits : FitsOn device areas blobs) (hstripped : ∀ x ∈ blobs, Stripped erase x.2) {bin : Bytes}
    (h : Joined erase device areas blobs bin) {a : Area} (ha : a ∈ areas)
    (hdevice : a.device = device) : areaContent bin erase a = contentOf blobs a := by
  refine (stripped_areaContent bin erase a).ext (stripped_contentOf hstripped a) fun i => ?_
  rw [getD_areaContent]
  split
  · rename_i hin
    exact h.inside a ha hdevice i hin
  · rename_i hout
    have hsize := length_contentOf_le_size hnames hfits ha
    rw [List.getD_eq_default _ _ (Nat.le_trans hsize (Nat.le_of_not_lt hout))]

/-- The binary with its bytes outside the areas of a device erased. -/
def eraseOutside (binary : Bytes) (device : UInt8) (areas : List Area) (erase : UInt8) : Bytes :=
  binary.mapIdx fun i b => if ∃ a ∈ areas, a.device = device ∧ a.Covers i then b else erase

theorem getD_eraseOutside (i : Nat) :
    (eraseOutside binary device areas erase).getD i erase =
      if ∃ a ∈ areas, a.device = device ∧ a.Covers i then binary.getD i erase else erase := by
  rw [eraseOutside, List.getD_eq_getElem?_getD, List.getD_eq_getElem?_getD, List.getElem?_mapIdx]
  cases binary[i]? with
  | none => exact (ite_self _).symm
  | some b => rfl

theorem eraseOutside_eq_self
    (h : ∀ i, (∀ a ∈ areas, a.device = device → ¬a.Covers i) → binary.getD i erase = erase) :
    eraseOutside binary device areas erase = binary := by
  refine List.ext_getElem List.length_mapIdx fun i _ hi => ?_
  simp only [eraseOutside, List.getElem_mapIdx]
  split
  · rfl
  · rename_i hfree
    have herased := h i fun a ha hdevice hcovers => hfree ⟨a, ha, hdevice, hcovers⟩
    rw [List.getD_eq_getElem _ _ hi] at herased
    exact herased.symm

/-- A binary that holds what was cut from another one is that one without its bytes outside the
areas of the device. -/
theorem Joined.eq_of_cutFrom {contents : Blobs} {bin : Bytes}
    (hcut : CutFrom binary device erase areas contents)
    (h : Joined erase device areas contents bin) :
    bin = trimEnd erase (eraseOutside binary device areas erase) := by
  refine (h.stripped hcut.stripped).ext (Bytes.stripped_trimEnd _) fun i => ?_
  rw [Bytes.getD_trimEnd, getD_eraseOutside]
  split
  · rename_i hcovered
    obtain ⟨a, ha, hdevice, hstart, hstop⟩ := hcovered
    have hin : i - a.start < a.size.toNat := by
      rw [Area.stop, ← Area.start] at hstop
      omega
    have hbyte := h.inside a ha hdevice _ hin
    rwa [hcut.contentOf_eq ha hdevice, getD_areaContent, if_pos hin,
      Nat.add_sub_cancel' hstart] at hbyte
  · rename_i hfree
    exact h.outside i fun a ha hdevice hcovers => hfree ⟨a, ha, hdevice, hcovers⟩

/-! ## A layout with everything in it

Its areas are not in the order of their offsets.  One of them is empty and lies in another one, one
is on a second device, and there are gaps between them.
-/

namespace Sample

def layout : List Area :=
  [⟨"app", 1, 0, 8, 4⟩, ⟨"boot", 0, 0, 0, 4⟩, ⟨"mark", 2, 0, 2, 0⟩, ⟨"ext", 0, 1, 0, 16⟩,
    ⟨"tail", 3, 0, 16, 8⟩]

theorem valid_layout : Flash.validate layout = .ok () := Flash.validate_eq_ok_iff.mpr (by decide)

theorem nodup_names : (layout.map (·.name)).Nodup := by decide

/-- Empty contents for an area, none for another one, and an erased byte before the last one. -/
def given : Blobs := [("app", [2, 0xff, 3]), ("boot", [1]), ("mark", [])]

/-- A binary that ends in an area, with data between the areas. -/
def dump : Bytes := [1, 2, 0xff, 0xff, 5, 0xff, 0xff, 0xff, 6, 0xff]

end Sample

/-! ## Both ways -/

/-- Contents that fit and are stripped come back from the binary they were joined to: every area of
the device has its own contents, and empty ones if there were none. -/
theorem split_join (hvalid : Flash.validate areas = .ok ()) (hnames : (areas.map (·.name)).Nodup)
    (hfits : FitsOn device areas blobs) (hstripped : ∀ x ∈ blobs, Stripped erase x.2) :
    ∃ bin contents, join blobs erase areas = .ok bin ∧
      split bin device areas erase = .ok contents ∧
      ∀ name data, contents.lookup name = some data ↔
        ∃ a ∈ areas, a.device = device ∧ a.name = name ∧ contentOf blobs a = data := by
  obtain ⟨bin, hjoin, hjoined⟩ := exists_join hvalid hnames hfits
  obtain ⟨contents, hsplit, hcut⟩ := exists_split hvalid hnames bin device erase
  refine ⟨bin, contents, hjoin, hsplit, fun name data => ?_⟩
  rw [hcut.lookup_eq_some_iff]
  refine exists_congr fun a => and_congr_right fun ha => and_congr_right fun hdevice => ?_
  rw [hjoined.areaContent_eq hnames hfits hstripped ha hdevice]

/-- Three contents in the five areas of the sample. -/
theorem split_join_sample :
    (Flash.validate Sample.layout = .ok () ∧ (Sample.layout.map (·.name)).Nodup ∧
      FitsOn 0 Sample.layout Sample.given ∧ ∀ x ∈ Sample.given, Stripped 0xff x.2) ∧
    ∃ bin contents, join Sample.given 0xff Sample.layout = .ok bin ∧
      split bin 0 Sample.layout 0xff = .ok contents ∧
      ∀ name data, contents.lookup name = some data ↔
        ∃ a ∈ Sample.layout, a.device = 0 ∧ a.name = name ∧ contentOf Sample.given a = data := by
  have hfits : FitsOn 0 Sample.layout Sample.given := by decide
  have hstripped : ∀ x ∈ Sample.given, Stripped 0xff x.2 := by decide
  exact ⟨⟨Sample.valid_layout, Sample.nodup_names, hfits, hstripped⟩,
    split_join Sample.valid_layout Sample.nodup_names hfits hstripped⟩

/-- The contents of the areas of a device are joined to the binary again, without its bytes outside
the areas and without the erased ones at its end. -/
theorem join_split (hvalid : Flash.validate areas = .ok ()) (hnames : (areas.map (·.name)).Nodup)
    (binary : Bytes) (device erase : UInt8) :
    ∃ contents, split binary device areas erase = .ok contents ∧
      join contents erase areas =
        .ok (trimEnd erase (eraseOutside binary device areas erase)) ∧
      ((∀ i, (∀ a ∈ areas, a.device = device → ¬a.Covers i) → binary.getD i erase = erase) →
        join contents erase areas = .ok (trimEnd erase binary)) := by
  obtain ⟨contents, hsplit, hcut⟩ := exists_split hvalid hnames binary device erase
  obtain ⟨bin, hjoin, hjoined⟩ := exists_join hvalid hnames hcut.fitsOn
  obtain rfl := hjoined.eq_of_cutFrom hcut
  refine ⟨contents, hsplit, hjoin, fun hnothing => ?_⟩
  rwa [eraseOutside_eq_self hnothing] at hjoin

/-- The data between the areas of the sample is lost, and no other. -/
theorem join_split_sample :
    (Flash.validate Sample.layout = .ok () ∧ (Sample.layout.map (·.name)).Nodup) ∧
    ∃ contents, split Sample.dump 0 Sample.layout 0xff = .ok contents ∧
      join contents 0xff Sample.layout =
        .ok (trimEnd 0xff (eraseOutside Sample.dump 0 Sample.layout 0xff)) ∧
      ((∀ i, (∀ a ∈ Sample.layout, a.device = 0 → ¬a.Covers i) →
          Sample.dump.getD i 0xff = 0xff) →
        join contents 0xff Sample.layout = .ok (trimEnd 0xff Sample.dump)) :=
  ⟨⟨Sample.valid_layout, Sample.nodup_names⟩,
    join_split Sample.valid_layout Sample.nodup_names Sample.dump 0 0xff⟩

end Firmware.Factory
