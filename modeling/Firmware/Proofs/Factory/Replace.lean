import Firmware.Factory.Replace
import Firmware.Proofs.Bytes
import Firmware.Proofs.Run

/-!
# Replacing a key is all or nothing

An edit works on the bytes in place, and what it has written stays there when it fails.  Both
replacements are `Clean` all the same: a run that fails has written nothing, and one that succeeds
keeps the length of the binary.

The order of the steps gives the first half: whatever can fail comes before the first write.  The
second half rests on where a key is found.  `exists_append_of_findUnique` says that the whole key
stands there, so the writes over the key, over the rest of its slot and over the length field before
it stay inside of the binary.
-/

namespace Firmware.Factory

open Bytes (overwrite zeros)

/-! ## Finding a key -/

/-- At every offset that is found stands the pattern: the induction is on the bytes that are left. -/
theorem exists_append_of_mem_occurrencesFrom {pattern bs : Bytes} {offset skip found : Nat}
    (h : found ∈ occurrencesFrom pattern offset skip bs) :
    ∃ front back, bs = front ++ pattern ++ back ∧ offset + front.length = found := by
  induction bs generalizing offset skip with
  | nil => exact absurd h List.not_mem_nil
  | cons b bs ih =>
      have hrest : ∀ {skip}, found ∈ occurrencesFrom pattern (offset + 1) skip bs →
          ∃ front back, b :: bs = front ++ pattern ++ back ∧ offset + front.length = found := by
        intro skip hmem
        obtain ⟨front, back, rfl, rfl⟩ := ih hmem
        refine ⟨b :: front, back, rfl, ?_⟩
        rw [List.length_cons]
        omega
      cases skip with
      | succ skip => exact hrest h
      | zero =>
          rw [occurrencesFrom] at h
          split at h
          · rename_i hprefix
            rcases List.mem_cons.mp h with rfl | hmem
            · obtain ⟨back, hback⟩ := List.isPrefixOf_iff_prefix.mp hprefix
              exact ⟨[], back, hback.symm, rfl⟩
            · exact hrest hmem
          · exact hrest h

theorem exists_append_of_findUnique {binary pattern : Bytes} {offset : Nat}
    (h : findUnique binary pattern = .ok offset) :
    ∃ front back, binary = front ++ pattern ++ back ∧ front.length = offset := by
  unfold findUnique at h
  split at h
  · cases h
  · split at h
    · rename_i found hfound
      cases h
      have hmem : offset ∈ occurrencesFrom pattern 0 0 binary := by
        rw [hfound]
        exact List.mem_singleton_self offset
      obtain ⟨front, back, hbinary, hoffset⟩ := exists_append_of_mem_occurrencesFrom hmem
      exact ⟨front, back, hbinary, (Nat.zero_add _).symm.trans hoffset⟩
    · cases h

/-- The whole key lies in the binary. -/
theorem add_length_le_of_findUnique {binary pattern : Bytes} {offset : Nat}
    (h : findUnique binary pattern = .ok offset) : offset + pattern.length ≤ binary.length := by
  obtain ⟨front, back, rfl, rfl⟩ := exists_append_of_findUnique h
  rw [List.length_append, List.length_append]
  exact Nat.le_add_right _ _

/-! ## The steps of an edit -/

namespace Edit

variable {binary edited pattern patch : Bytes} {offset : Nat} {e : Error}

theorem yields_find :
    Yields (Edit.find pattern) binary offset edited ↔
      findUnique binary pattern = .ok offset ∧ binary = edited := by
  rw [Edit.find, yields_bind]
  constructor
  · rintro ⟨_, _, hget, hfind⟩
    obtain ⟨rfl, rfl⟩ := yields_get.mp hget
    exact yields_monadLift.mp hfind
  · rintro ⟨hfind, rfl⟩
    exact ⟨binary, binary, yields_get.mpr ⟨rfl, rfl⟩, yields_monadLift.mpr ⟨hfind, rfl⟩⟩

theorem eq_of_fails_find (h : Fails (Edit.find pattern) binary e edited) : edited = binary := by
  rcases fails_bind.mp h with hget | ⟨_, _, hget, hfind⟩
  · exact absurd hget not_fails_get
  · obtain ⟨rfl, rfl⟩ := yields_get.mp hget
    exact (fails_monadLift.mp hfind).2.symm

theorem yields_write {u : Unit} :
    Yields (Edit.write offset patch) binary u edited ↔ overwrite binary offset patch = edited := by
  constructor
  · intro h
    cases h
    rfl
  · rintro rfl
    rfl

theorem not_fails_write : ¬Fails (Edit.write offset patch) binary e edited := by
  intro h
  cases h

theorem result_eq_ok_iff {edit : Edit Unit} :
    edit.result binary = .ok edited ↔ Yields edit binary () edited := by
  unfold result Yields
  rcases edit binary with ⟨r, bytes⟩
  cases r with
  | error e =>
      constructor
      · intro h
        cases h
      · intro h
        cases h
  | ok u =>
      constructor
      · intro h
        cases h
        rfl
      · intro h
        cases h
        rfl

/-- An edit that writes nothing if it fails, and that keeps the length of the binary. -/
structure Clean (edit : Edit Unit) : Prop where
  eq_of_fails : ∀ {binary e edited}, Fails edit binary e edited → edited = binary
  length_of_yields : ∀ {binary edited}, Yields edit binary () edited →
    edited.length = binary.length

/-! ## Both replacements are clean -/

theorem clean_replaceSigningKey (old new : Bytes) : (Edit.replaceSigningKey old new).Clean := by
  unfold Edit.replaceSigningKey
  split
  · exact
      { eq_of_fails := fun h => (fails_throw.mp h).2.symm
        length_of_yields := fun h => absurd h not_yields_throw }
  · rename_i hlength
    constructor
    · intro binary e edited h
      rcases fails_bind.mp h with hfind | ⟨offset, _, -, hwrite⟩
      · exact eq_of_fails_find hfind
      · exact absurd hwrite not_fails_write
    · intro binary edited h
      obtain ⟨offset, _, hfind, hwrite⟩ := yields_bind.mp h
      obtain ⟨hfound, rfl⟩ := yields_find.mp hfind
      obtain rfl := yields_write.mp hwrite
      have hinside := add_length_le_of_findUnique hfound
      rw [Decidable.not_not.mp hlength] at hinside
      exact Bytes.length_overwrite hinside

/-- The length field before an offset is changed as a last step. -/
theorem eq_of_fails_updateLengthField {old new : Nat}
    (h : Fails (Edit.updateLengthField offset old new) binary e edited) : edited = binary := by
  unfold Edit.updateLengthField at h
  split at h
  · exact (fails_throw.mp h).2.symm
  · rcases fails_bind.mp h with hget | ⟨_, _, hget, h⟩
    · exact absurd hget not_fails_get
    · obtain ⟨rfl, rfl⟩ := yields_get.mp hget
      dsimp only at h
      split at h
      · exact (fails_throw.mp h).2.symm
      · exact absurd h not_fails_write

theorem length_of_yields_updateLengthField {old new : Nat} {u : Unit}
    (hoffset : offset ≤ binary.length)
    (h : Yields (Edit.updateLengthField offset old new) binary u edited) :
    edited.length = binary.length := by
  unfold Edit.updateLengthField at h
  split at h
  · exact absurd h not_yields_throw
  · rename_i hroom
    obtain ⟨_, _, hget, h⟩ := yields_bind.mp h
    obtain ⟨rfl, rfl⟩ := yields_get.mp hget
    dsimp only at h
    split at h
    · exact absurd h not_yields_throw
    · obtain rfl := yields_write.mp h
      apply Bytes.length_overwrite
      rw [Bytes.length_ofNatLE]
      omega

theorem not_fails_fillSlot {slot : Nat} {key : Bytes} :
    ¬Fails (Edit.fillSlot offset slot key) binary e edited := by
  intro h
  rcases fails_bind.mp h with hwrite | ⟨_, _, -, hwrite⟩
  · exact not_fails_write hwrite
  · exact not_fails_write hwrite

theorem length_of_yields_fillSlot {slot : Nat} {key : Bytes} {u : Unit}
    (hkey : key.length ≤ slot) (hslot : offset + slot ≤ binary.length)
    (h : Yields (Edit.fillSlot offset slot key) binary u edited) :
    edited.length = binary.length := by
  obtain ⟨_, written, hwrite, hfill⟩ := yields_bind.mp h
  obtain rfl := yields_write.mp hwrite
  obtain rfl := yields_write.mp hfill
  have hwritten : (overwrite binary offset key).length = binary.length :=
    Bytes.length_overwrite (by omega)
  rw [Bytes.length_overwrite, hwritten]
  rw [Bytes.length_zeros, hwritten]
  omega

theorem clean_replaceKek (old new : Bytes) : (Edit.replaceKek old new).Clean := by
  unfold Edit.replaceKek
  split
  · exact
      { eq_of_fails := fun h => (fails_throw.mp h).2.symm
        length_of_yields := fun h => absurd h not_yields_throw }
  · rename_i hlength
    constructor
    · intro binary e edited h
      rcases fails_bind.mp h with hfind | ⟨offset, _, hfind, h⟩
      · exact eq_of_fails_find hfind
      · obtain ⟨-, rfl⟩ := yields_find.mp hfind
        dsimp only at h
        split at h
        · rcases fails_bind.mp h with hfield | ⟨_, _, -, hfill⟩
          · exact eq_of_fails_updateLengthField hfield
          · exact absurd hfill not_fails_fillSlot
        · exact absurd h not_fails_fillSlot
    · intro binary edited h
      obtain ⟨offset, _, hfind, h⟩ := yields_bind.mp h
      obtain ⟨hfound, rfl⟩ := yields_find.mp hfind
      have hinside := add_length_le_of_findUnique hfound
      have hkey : new.length ≤ old.length := Nat.le_of_not_lt hlength
      dsimp only at h
      split at h
      · obtain ⟨_, changed, hfield, hfill⟩ := yields_bind.mp h
        have hchanged := length_of_yields_updateLengthField (by omega) hfield
        rw [length_of_yields_fillSlot hkey (by rwa [hchanged]) hfill, hchanged]
      · exact length_of_yields_fillSlot hkey hinside h

end Edit

end Firmware.Factory
