import Firmware.Factory.Action
import Firmware.Proofs.Factory.Region
import Firmware.Proofs.Factory.Replace

/-!
# Binary and region stay in step

`steady_after` : whatever is done to a factory binary that was read with a region, and whatever of it
fails, the binary keeps its length and the region its place; an action that fails changes nothing;
and a new digest puts the binary and the region back in step, also after a key has been written
into the region behind its back.

The invariant is `Kept`: the region is the one that was read, up to its digest.  It says nothing
about the bytes in the place of the region, which a replacement of a key may change.  None of it
matters for a new digest, which covers them (`Meta.splice_splice`).
-/

namespace Firmware.Factory

open Meta (hashLength)

/-! ## Single actions -/

section Runs

variable {f f' : Factory} {e : Error} {edit : Edit Unit} {erase : UInt8}

/-- An edit of the binary has the result of the edit and changes nothing besides the binary. -/
theorem ofEdit_eq_iff {result : Except Error Unit} :
    Change.ofEdit edit f = (result, f') ↔
      ∃ binary, edit f.binary = (result, binary) ∧ { f with binary } = f' := by
  have hrun : Change.ofEdit edit f =
      ((edit f.binary).1, { f with binary := (edit f.binary).2 }) := rfl
  rw [hrun]
  constructor
  · intro h
    obtain ⟨hresult, hstate⟩ := Prod.mk.inj h
    exact ⟨(edit f.binary).2, Prod.ext hresult rfl, hstate⟩
  · rintro ⟨binary, h, rfl⟩
    rw [h]

theorem yields_ofEdit :
    Yields (Change.ofEdit edit) f () f' ↔
      ∃ binary, Yields edit f.binary () binary ∧ { f with binary } = f' := ofEdit_eq_iff

theorem fails_ofEdit :
    Fails (Change.ofEdit edit) f e f' ↔
      ∃ binary, Fails edit f.binary e binary ∧ { f with binary } = f' := ofEdit_eq_iff

theorem yields_rehash : Yields (Change.rehash erase) f () f' ↔ f.rehash erase = .ok f' := by
  rw [Change.rehash, yields_bind]
  constructor
  · rintro ⟨_, _, hget, h⟩
    obtain ⟨rfl, rfl⟩ := yields_get.mp hget
    obtain ⟨fresh, _, hlift, hset⟩ := yields_bind.mp h
    obtain ⟨hrehash, rfl⟩ := yields_monadLift.mp hlift
    cases hset
    exact hrehash
  · intro h
    exact ⟨f, f, yields_get.mpr ⟨rfl, rfl⟩,
      yields_bind.mpr ⟨f', f, yields_monadLift.mpr ⟨h, rfl⟩, rfl⟩⟩

theorem fails_rehash :
    Fails (Change.rehash erase) f e f' ↔ f.rehash erase = .error e ∧ f = f' := by
  rw [Change.rehash, fails_bind]
  constructor
  · rintro (hget | ⟨_, _, hget, h⟩)
    · exact absurd hget not_fails_get
    · obtain ⟨rfl, rfl⟩ := yields_get.mp hget
      rcases fails_bind.mp h with hrehash | ⟨_, _, -, hset⟩
      · exact fails_monadLift.mp hrehash
      · cases hset
  · rintro ⟨h, rfl⟩
    exact .inr ⟨f, f, yields_get.mpr ⟨rfl, rfl⟩,
      fails_bind.mpr (.inl (fails_monadLift.mpr ⟨h, rfl⟩))⟩

/-- An action that fails changes nothing. -/
theorem eq_of_fails {action : Action} (h : Fails action.run f e f') : f' = f := by
  have hedit : ∀ {edit : Edit Unit}, edit.Clean → Fails (Change.ofEdit edit) f e f' → f' = f := by
    intro edit hclean h
    obtain ⟨binary, hfails, rfl⟩ := fails_ofEdit.mp h
    rw [hclean.eq_of_fails hfails]
  cases action with
  | replaceSigningKey old new => exact hedit (Edit.clean_replaceSigningKey old new) h
  | replaceKek old new => exact hedit (Edit.clean_replaceKek old new) h
  | rehash erase => exact (fails_rehash.mp h).2.symm

end Runs

/-! ## Any number of actions -/

/-- A region that agrees with another one up to its digest. -/
structure UpToDigest (m m' : Meta) : Prop where
  sound : m'.Sound
  size_eq : m'.size = m.size
  hasDigest_iff : (∃ digest, m'.HasDigest digest) ↔ ∃ digest, m.HasDigest digest
  withDigest_eq : ∀ digest, m'.withDigest digest = m.withDigest digest

theorem UpToDigest.refl {m : Meta} (h : m.Sound) : UpToDigest m m := ⟨h, rfl, .rfl, fun _ => rfl⟩

/-- The region that an up-to-date digest is put into. -/
theorem UpToDigest.withDigest {m m' : Meta} {digest fresh : Bytes} (h : UpToDigest m m')
    (hdigest : m'.HasDigest digest) (hfresh : fresh.length = hashLength) :
    UpToDigest m (m'.withDigest fresh) where
  sound := hdigest.sound_withDigest h.sound hfresh
  size_eq := (hdigest.size_withDigest hfresh).trans h.size_eq
  hasDigest_iff := by
    rw [← h.hasDigest_iff]
    exact ⟨fun _ => ⟨digest, hdigest⟩, fun _ => ⟨fresh, hdigest.withDigest hfresh⟩⟩
  withDigest_eq := by
    intro other
    rw [Meta.withDigest_withDigest, h.withDigest_eq]

/-- What actions keep of a factory binary that was read with a region. -/
structure Kept (start : Factory) (m : Meta) (f : Factory) : Prop where
  length : f.binary.length = start.binary.length
  offset : f.offset = start.offset
  region : ∃ m', f.region = some m' ∧ UpToDigest m m'

section Kept

variable {start f f' : Factory} {m : Meta}

/-- One action keeps it. -/
theorem Kept.of_yields (hinside : start.offset + m.size ≤ start.binary.length)
    (h : Kept start m f) {action : Action} (hrun : Yields action.run f () f') :
    Kept start m f' := by
  obtain ⟨m', hregion, hm'⟩ := h.region
  have hedit : ∀ {edit : Edit Unit}, edit.Clean → Yields (Change.ofEdit edit) f () f' →
      Kept start m f' := by
    intro edit hclean hrun
    obtain ⟨binary, hyields, rfl⟩ := yields_ofEdit.mp hrun
    exact ⟨(hclean.length_of_yields hyields).trans h.length, h.offset, m', hregion, hm'⟩
  cases action with
  | replaceSigningKey old new => exact hedit (Edit.clean_replaceSigningKey old new) hrun
  | replaceKek old new => exact hedit (Edit.clean_replaceKek old new) hrun
  | rehash erase =>
      obtain ⟨⟨digest, hdigest⟩, -, rfl⟩ := (rehash_eq_ok_iff hregion).mp (yields_rehash.mp hrun)
      refine ⟨?_, h.offset, _, rfl, hm'.withDigest hdigest Meta.length_freshDigest⟩
      dsimp only
      rw [Meta.length_splice, Meta.length_bytes, hdigest.size_withDigest Meta.length_freshDigest,
        hm'.size_eq, h.offset, h.length]
      exact Nat.max_eq_left hinside

theorem Kept.step (hinside : start.offset + m.size ≤ start.binary.length) (h : Kept start m f)
    (action : Action) : Kept start m (action.run f).2 := by
  rcases hrun : action.run f with ⟨result, f'⟩
  cases result with
  | ok u => exact h.of_yields hinside hrun
  | error e =>
      have hsame : f' = f := eq_of_fails hrun
      rwa [hsame]

/-- Any number of actions keep it. -/
theorem Kept.after (hinside : start.offset + m.size ≤ start.binary.length) (h : Kept start m f)
    (actions : List Action) : Kept start m (f.after actions) := by
  induction actions generalizing f with
  | nil => exact h
  | cons action actions ih => exact ih (h.step hinside action)

end Kept

/-- What is true of a factory binary at any time after it was read with a region. -/
structure Steady (start : Factory) (stop : Nat) (m : Meta) (f : Factory) : Prop where
  length : f.binary.length = start.binary.length
  offset : f.offset = start.offset
  unchanged : ∀ {action : Action} {e f'}, Fails action.run f e f' → f' = f
  rehash_fails_iff : ∀ erase,
    (∃ e f', Fails (Action.rehash erase).run f e f') ↔ ¬∃ digest, m.HasDigest digest
  inStep : ∀ {erase f'}, Yields (Action.rehash erase).run f () f' → InStep stop f'

theorem Kept.steady {start f : Factory} {m : Meta} (h : Kept start m f) :
    Steady start (start.offset + m.size) m f := by
  obtain ⟨m', hregion, hm'⟩ := h.region
  refine ⟨h.length, h.offset, eq_of_fails, ?_, ?_⟩
  · intro erase
    rw [← hm'.hasDigest_iff]
    constructor
    · rintro ⟨e, f', hfails⟩ hdigest
      have hyields : Yields (Action.rehash erase).run f () _ :=
        yields_rehash.mpr ((rehash_eq_ok_iff hregion).mpr ⟨hdigest, hm'.sound.toWritable, rfl⟩)
      exact hyields.not_fails hfails
    · intro hnone
      rcases yields_or_fails (Action.rehash erase).run f with ⟨⟨⟩, f', hyields⟩ | hfails
      · exact absurd ((rehash_eq_ok_iff hregion).mp (yields_rehash.mp hyields)).1 hnone
      · exact hfails
  · intro erase f' hyields
    have hrehash := yields_rehash.mp hyields
    obtain ⟨⟨digest, hdigest⟩, -, -⟩ := (rehash_eq_ok_iff hregion).mp hrehash
    rw [← h.offset, ← hm'.size_eq]
    exact inStep_of_rehash hregion hm'.sound hdigest hrehash

/-- A factory binary that was read with a region stays steady whatever is done to it.  A first new
digest changes nothing but the digest bytes. -/
theorem steady_after (data : Bytes) (stop : Nat) (start : Factory)
    (h : parse data (some stop) = .ok start) (actions : List Action) :
    ∃ m, start.region = some m ∧ start.binary = data ∧
      Steady start stop m (start.after actions) ∧
      ∀ erase f', Yields (Action.rehash erase).run start () f' →
        SameButDigest m start.offset data f'.binary := by
  obtain ⟨m, offset, hcarries, rfl, rfl⟩ := parse_eq_ok_iff.mp h
  have hstart : Kept ⟨data, some m, offset⟩ m ⟨data, some m, offset⟩ :=
    ⟨rfl, rfl, m, rfl, .refl hcarries.sound⟩
  refine ⟨m, rfl, rfl, (hstart.after hcarries.inside actions).steady, ?_⟩
  intro erase f' hyields
  exact sameButDigest_of_rehash rfl hcarries (yields_rehash.mp hyields)

/-! ### A key inside of the region -/

namespace Inside

/-- A region with a digest that is still to be computed and a key behind it. -/
def region : Meta where
  items := [.blankHash, ⟨9, [1, 2, 3, 4]⟩]
  footer := { size := 48, version := Meta.currentVersion, pad := 0xff }

def data : Bytes := [10, 11, 12] ++ region.bytes ++ [13]

def start : Factory := ⟨data, some region, 3⟩

/-- Replaces the key, and with it some bytes of the region. -/
def edit : Action := .replaceSigningKey [1, 2, 3, 4] [5, 6, 7, 8]

set_option maxRecDepth 100000 in
/-- The region is read, the edit changes the binary, and a new digest can be computed behind it. -/
theorem steps :
    parse data (some 51) = .ok start ∧ (start.after [edit]).binary ≠ data ∧
      ((Action.rehash 0).run (start.after [edit])).1 = .ok () := by
  decide +kernel

end Inside

/-- A key in the region is replaced; the binary no longer has the bytes of the region, and a new
digest puts them back. -/
theorem steady_after_edit_inside :
    parse Inside.data (some 51) = .ok Inside.start ∧
      (Inside.start.after [Inside.edit]).binary ≠ Inside.data ∧
      InStep 51 (Inside.start.after [Inside.edit, .rehash 0]) := by
  obtain ⟨hparse, hedit, hrehash⟩ := Inside.steps
  obtain ⟨m, -, -, hsteady, -⟩ := steady_after Inside.data 51 Inside.start hparse [Inside.edit]
  have hyields : Yields (Action.rehash 0).run (Inside.start.after [Inside.edit]) ()
      (Inside.start.after [Inside.edit, .rehash 0]) := Prod.ext hrehash rfl
  exact ⟨hparse, hedit, hsteady.inStep hyields⟩

end Firmware.Factory
