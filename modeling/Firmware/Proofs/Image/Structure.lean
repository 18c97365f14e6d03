import Firmware.Image.Structure
import Mathlib.Data.List.Nodup

/-!
# Areas without a breach

`duplicateViolations_eq_nil_iff` : the rule on repeated key hashes is kept exactly by the areas whose
key hashes are pairwise distinct.  A key hash is only four bytes of a digest, so two keys may well
have the same one; that no area with such a pair passes is what makes looking a key up by its hash
safe.
-/

namespace Firmware.Image

theorem repeated_eq_nil_iff {hashes : List Bytes} : repeated hashes = [] ↔ hashes.Nodup := by
  have hsort : ∀ l : List Bytes, l.mergeSort Bytes.ble = [] ↔ l = [] := by
    intro l
    rw [← List.length_eq_zero_iff, List.length_mergeSort, List.length_eq_zero_iff]
  unfold repeated
  rw [hsort, List.filter_eq_nil_iff, List.nodup_iff_count_le_one]
  constructor
  · intro h a
    by_cases ha : a ∈ hashes
    · have hcount := h a (List.mem_eraseDups.mpr ha)
      rw [decide_eq_true_eq] at hcount
      exact Nat.le_of_not_lt hcount
    · rw [List.count_eq_zero_of_not_mem ha]
      exact Nat.zero_le 1
  · intro h a _
    rw [decide_eq_true_eq]
    exact Nat.not_lt_of_le (h a)

theorem duplicateViolations_eq_nil_iff {tlvs : List Tlv} :
    duplicateViolations tlvs = [] ↔ (keyHashes tlvs).Nodup := by
  rw [← repeated_eq_nil_iff]
  unfold duplicateViolations
  cases repeated (keyHashes tlvs) with
  | nil => exact ⟨fun _ => rfl, fun _ => rfl⟩
  | cons h hs =>
      constructor
      · intro h
        cases h
      · intro h
        cases h

/-- The breach tells the hashes that occur more than once. -/
theorem duplicateViolations_of_not_nodup {tlvs : List Tlv} (h : ¬(keyHashes tlvs).Nodup) :
    duplicateViolations tlvs = [.duplicateKeyHashes (repeated (keyHashes tlvs))] := by
  rw [← repeated_eq_nil_iff] at h
  unfold duplicateViolations
  cases hrepeated : repeated (keyHashes tlvs) with
  | nil => exact absurd hrepeated h
  | cons h hs => rfl

/-- In a sound area the key hashes are pairwise distinct. -/
theorem nodup_keyHashes {tlvs : List Tlv} (h : violations tlvs = []) : (keyHashes tlvs).Nodup := by
  unfold violations at h
  rw [List.append_eq_nil_iff, List.append_eq_nil_iff] at h
  exact duplicateViolations_eq_nil_iff.mp h.1.2

end Firmware.Image
