import Firmware.Proofs.Factory.Joinable
import Firmware.Proofs.Factory.Split

/-!
# Areas with one name

A valid layout may have several areas with one name, on one device or on many.  Cutting refuses such
names on its device.  Joining does not: it looks the contents of each area up by its name, so what
is given once is placed in every area with that name.

`join_repeated` says this for every valid layout.  Whether contents can be joined does not depend on
the names of the areas beyond that each of them finds one and fits those it finds; on one device
that is all, since its areas share no byte.  Then the contents under a name stand at as many places
as there are areas with the name, and at one place exactly if no two areas have it.

`join_copies` is a layout of one device in which contents are placed twice.
-/

namespace Firmware.Factory

open Bytes (slice)
open Flash (Area Compatible)

variable {erase : UInt8} {areas : List Area} {blobs : Blobs} {name : String}

/-! ## Places of a name -/

/-- Where the areas with a name start. -/
def startsOf (name : String) (areas : List Area) : List Nat :=
  (areas.filter (·.name = name)).map Area.start

/-- Contents stand in a binary wherever an area has their name, each time at another place. -/
structure CopiedTo (name : String) (data : Bytes) (areas : List Area) (bin : Bytes) : Prop where
  placed : startsOf name areas ≠ []
  distinct : (startsOf name areas).Nodup
  inside : ∀ i ∈ startsOf name areas, slice bin i (i + data.length) = data

theorem mem_startsOf {i : Nat} :
    i ∈ startsOf name areas ↔ ∃ a ∈ areas, a.name = name ∧ a.start = i := by
  simp only [startsOf, List.mem_map, List.mem_filter, decide_eq_true_eq, and_assoc]

theorem contentOf_of_lookup {data : Bytes} (h : blobs.lookup name = some data) {a : Area}
    (ha : a.name = name) : contentOf blobs a = data := by
  rw [contentOf, ha, h, Option.getD_some]

/-- A name has at most one place exactly if no two areas have it. -/
theorem length_startsOf_le_one_iff :
    (startsOf name areas).length ≤ 1 ↔
      areas.Pairwise fun a b => a.name = name → b.name ≠ name := by
  have hfew : ∀ found : List Area, found.length ≤ 1 ↔ found.Pairwise fun _ _ => False
    | [] => ⟨fun _ => .nil, fun _ => Nat.zero_le 1⟩
    | [a] => ⟨fun _ => List.pairwise_singleton _ a, fun _ => Nat.le_refl 1⟩
    | a :: b :: more =>
        ⟨nofun, fun h => absurd List.mem_cons_self ((List.pairwise_cons.mp h).1 b)⟩
  rw [startsOf, List.length_map, hfew, List.pairwise_filter]
  simp only [decide_eq_true_eq]

/-! ## Joining -/

/-- Contents that fit compatible areas of one device have no byte in common. -/
theorem apart_of_compatible {a b : Area} (hcompatible : Compatible a b)
    (hdevice : a.device = b.device) (ha : (contentOf blobs a).length ≤ a.size.toNat)
    (hb : (contentOf blobs b).length ≤ b.size.toNat) : Apart (filled blobs a) (filled blobs b) := by
  rcases Nat.le_total a.start b.start with hstart | hstart
  · have hbefore : Before (filled blobs a) (filled blobs b) :=
      before_of_compatible hcompatible hdevice hstart ha hb
    exact (before_iff_apart hstart).mp hbefore
  · have hbefore : Before (filled blobs b) (filled blobs a) :=
      before_of_compatible hcompatible.symm hdevice.symm hstart hb ha
    exact ((before_iff_apart hstart).mp hbefore).symm

/-- In a valid layout only areas on different devices can stand in each other's way. -/
theorem joinable_iff_of_valid (hvalid : Flash.validate areas = .ok ()) :
    Joinable areas blobs ↔
      (∀ x ∈ blobs, ∃ a ∈ areas, a.name = x.1) ∧
      (∀ a ∈ areas, (contentOf blobs a).length ≤ a.size.toNat) ∧
      areas.Pairwise fun a b => a.device ≠ b.device → Apart (filled blobs a) (filled blobs b) := by
  constructor
  · rintro ⟨-, hnamed, hfits, hapart⟩
    exact ⟨hnamed, hfits, hapart.imp fun {a b} h (_ : a.device ≠ b.device) => h⟩
  · rintro ⟨hnamed, hfits, hapart⟩
    refine ⟨hvalid, hnamed, hfits, ?_⟩
    refine ((Flash.validate_eq_ok_iff.mp hvalid).and hapart).imp_of_mem ?_
    rintro a b ha hb ⟨hcompatible, hother⟩
    by_cases hdevice : a.device = b.device
    · exact apart_of_compatible hcompatible hdevice (hfits a ha) (hfits b hb)
    · exact hother hdevice

theorem copiedTo_of_filled {data bin : Bytes} (hjoinable : Joinable areas blobs)
    (hfilled : Filled erase areas blobs bin) (hlookup : blobs.lookup name = some data)
    (hsome : data ≠ []) : CopiedTo name data areas bin where
  placed := by
    obtain ⟨a, ha, hname⟩ := hjoinable.named _ (mem_of_lookup hlookup)
    exact List.ne_nil_of_mem (mem_startsOf.mpr ⟨a, ha, hname, rfl⟩)
  distinct := by
    have hpos := List.length_pos_iff.mpr hsome
    -- Two areas that start at one place would both have the first byte there.
    have hfirst : ∀ a : Area, a.name = name → Fills (filled blobs a) a.start := by
      intro a ha
      refine ⟨Nat.le_refl _, Nat.lt_add_of_pos_right ?_⟩
      show 0 < (contentOf blobs a).length
      rwa [contentOf_of_lookup hlookup ha]
    rw [startsOf, List.Nodup, List.pairwise_map, List.pairwise_filter]
    refine hjoinable.apart.imp fun {a b} hapart ha hb hstart => ?_
    refine hapart a.start (hfirst a (of_decide_eq_true ha)) ?_
    rw [hstart]
    exact hfirst b (of_decide_eq_true hb)
  inside := by
    intro i hi
    obtain ⟨a, ha, hname, rfl⟩ := mem_startsOf.mp hi
    have hinside := hfilled.inside a ha
    rwa [contentOf_of_lookup hlookup hname] at hinside

/-! ## Cutting -/

theorem count_of_firstRepeated {seen names : List String}
    (h : firstRepeated seen names = some name) :
    name ∈ names ∧ (name ∈ seen ∨ 1 < names.count name) := by
  induction names generalizing seen with
  | nil => cases h
  | cons n names ih =>
      rw [firstRepeated] at h
      split at h
      · rename_i hseen
        obtain rfl := Option.some.inj h
        exact ⟨List.mem_cons_self, .inl hseen⟩
      · obtain ⟨hmem, hfound⟩ := ih h
        refine ⟨List.mem_cons_of_mem n hmem, ?_⟩
        rw [List.mem_cons] at hfound
        rcases hfound with (rfl | hseen) | hcount
        · rw [List.count_cons_self]
          exact .inr (Nat.succ_lt_succ (List.count_pos_iff.mpr hmem))
        · exact .inl hseen
        · exact .inr (Nat.lt_of_lt_of_le hcount List.count_le_count_cons)

/-- The names of the areas of a device. -/
def namesOn (device : UInt8) (areas : List Area) : List String :=
  (areas.filter (·.device = device)).map (·.name)

/-- Cutting refuses a name that occurs twice on its device, and nothing else. -/
theorem split_of_valid (hvalid : Flash.validate areas = .ok ()) (binary : Bytes) (device : UInt8)
    (erase : UInt8) :
    ((namesOn device areas).Nodup →
      ∃ contents, split binary device areas erase = .ok contents) ∧
    (¬(namesOn device areas).Nodup →
      ∃ name, split binary device areas erase = .error (.duplicateAreaName name) ∧
        1 < (namesOn device areas).count name) := by
  have hnodup : firstRepeated [] (namesOn device areas) = none ↔ (namesOn device areas).Nodup := by
    rw [firstRepeated_eq_none_iff]
    exact and_iff_left fun _ _ => List.not_mem_nil
  rw [← hnodup]
  unfold split
  rw [hvalid]
  dsimp only
  cases hfound : firstRepeated [] (namesOn device areas) with
  | none =>
      rw [namesOn] at hfound
      rw [hfound]
      exact ⟨fun _ => ⟨_, rfl⟩, fun h => absurd rfl h⟩
  | some name =>
      have hcount := (count_of_firstRepeated hfound).2.resolve_left List.not_mem_nil
      rw [namesOn] at hfound
      rw [hfound]
      exact ⟨nofun, fun _ => ⟨name, rfl, hcount⟩⟩

/-! ## Both -/

/-- In a valid layout, contents are joined if each of them has an area and fits all areas with its
name, and areas on different devices are apart.  Those that are not empty are then copied to every
area with their name; there is one if no two areas have it.  Cutting refuses such a layout. -/
theorem join_repeated (blobs : Blobs) (erase : UInt8) (areas : List Area)
    (hvalid : Flash.validate areas = .ok ()) :
    ((∃ bin, join blobs erase areas = .ok bin) ↔
      (∀ x ∈ blobs, ∃ a ∈ areas, a.name = x.1) ∧
      (∀ a ∈ areas, (contentOf blobs a).length ≤ a.size.toNat) ∧
      areas.Pairwise fun a b => a.device ≠ b.device → Apart (filled blobs a) (filled blobs b)) ∧
    (∀ bin, join blobs erase areas = .ok bin →
      ∀ name data, blobs.lookup name = some data → data ≠ [] →
        CopiedTo name data areas bin ∧
        ((startsOf name areas).length = 1 ↔
          areas.Pairwise fun a b => a.name = name → b.name ≠ name)) ∧
    ∀ binary device,
      ((namesOn device areas).Nodup →
        ∃ contents, split binary device areas erase = .ok contents) ∧
      (¬(namesOn device areas).Nodup →
        ∃ name, split binary device areas erase = .error (.duplicateAreaName name) ∧
          1 < (namesOn device areas).count name) := by
  refine ⟨?_, fun bin hjoin name data hlookup hsome => ?_, fun binary device => ?_⟩
  · rw [exists_join_iff_joinable, joinable_iff_of_valid hvalid]
  · obtain ⟨hjoinable, hfilled⟩ := join_eq_ok_iff_filled.mp hjoin
    have hcopied := copiedTo_of_filled hjoinable hfilled hlookup hsome
    have hpos := List.length_pos_iff.mpr hcopied.placed
    refine ⟨hcopied, ?_⟩
    rw [← length_startsOf_le_one_iff]
    omega
  · exact split_of_valid hvalid binary device erase

/-! ## Two areas with one name -/

namespace Copies

/-- Two areas of one device, with a byte between them. -/
def layout : List Area :=
  [{ name := "key", id := 0, device := 0, offset := 0, size := 1 },
    { name := "key", id := 1, device := 0, offset := 2, size := 1 }]

def given : Blobs := [("key", [1])]

def binary : Bytes := [1, 0xff, 1]

theorem valid_layout : Flash.validate layout = .ok () := Flash.validate_eq_ok_iff.mpr (by decide)

theorem join_given : join given 0xff layout = .ok binary := by
  refine join_eq_ok_iff_filled.mpr ⟨?_, ?_⟩
  · exact
      { valid := valid_layout
        named := by decide
        fits := by decide
        apart := by decide }
  · exact
      { inside := by decide
        outside := by decide
        last := .inr (by decide) }

end Copies

/-- The key of the sample stands at both of its places, and the binary cannot be cut again. -/
theorem join_repeated_copies :
    Flash.validate Copies.layout = .ok () ∧ CopiedTo "key" [1] Copies.layout Copies.binary ∧
      ∃ name, split Copies.binary 0 Copies.layout 0xff = .error (.duplicateAreaName name) ∧
        1 < (namesOn 0 Copies.layout).count name := by
  obtain ⟨-, hcopied, hsplit⟩ := join_repeated Copies.given 0xff Copies.layout Copies.valid_layout
  exact ⟨Copies.valid_layout, (hcopied _ Copies.join_given "key" [1] rfl (by decide)).1,
    (hsplit Copies.binary 0).2 (by decide)⟩

/-- Joining places the one key twice, in a layout that is valid, and cutting refuses that layout. -/
theorem join_copies :
    Flash.validate Copies.layout = .ok () ∧
    join Copies.given 0xff Copies.layout = .ok Copies.binary ∧
    ¬Copies.layout.Pairwise (fun a b => a.name = b.name → contentOf Copies.given a = []) ∧
    split Copies.binary 0 Copies.layout 0xff = .error (.duplicateAreaName "key") := by
  refine ⟨Copies.valid_layout, Copies.join_given, by decide, ?_⟩
  rw [split, Copies.valid_layout]
  rfl

end Firmware.Factory
