import Firmware.Bytes
import Mathlib.Data.List.GetD

/-!
# Strings on an erased device

On a flash device a byte string is followed by erased bytes without end.  So what a device holds is
the function `fun i => bs.getD i erase`, and two strings that differ only in erased bytes at their
ends are the same content.

A string is `Stripped` if it does not end in an erased byte.  Every content has exactly one stripped
form: `trimEnd` gives it (`getD_trimEnd`, `stripped_trimEnd`), and there is no other one
(`Stripped.ext`).  Two strings that come about in different ways are therefore equal as soon as both
are stripped and agree byte by byte, and no byte is ever out of bounds.
-/

namespace Firmware.Bytes

variable {erase : UInt8}

/-- A string that does not end in an erased byte; the empty string is one. -/
def Stripped (erase : UInt8) (bs : Bytes) : Prop := bs.getLast? ≠ some erase

instance (erase : UInt8) (bs : Bytes) : Decidable (Stripped erase bs) :=
  inferInstanceAs (Decidable (bs.getLast? ≠ some erase))

theorem stripped_nil : Stripped erase [] := nofun

theorem stripped_append {a b : Bytes} (hb : b ≠ []) (h : Stripped erase b) :
    Stripped erase (a ++ b) := by
  obtain ⟨last, hlast⟩ := Option.ne_none_iff_exists'.mp (mt List.getLast?_eq_none_iff.mp hb)
  rw [Stripped, hlast] at h
  rwa [Stripped, List.getLast?_append, hlast, Option.some_or]

/-! ## Fillings and cuts -/

theorem getD_append_replicate (n : Nat) (bs : Bytes) (i : Nat) :
    (bs ++ List.replicate n erase).getD i erase = bs.getD i erase := by
  rcases Nat.lt_or_ge i bs.length with hi | hi
  · rw [List.getD_append _ _ _ _ hi]
  · rw [List.getD_append_right _ _ _ _ hi, List.getD_eq_default bs _ hi,
      List.getD_eq_getElem?_getD, List.getElem?_getD_replicate_default_eq]

theorem getD_extendTo (n : Nat) (bs : Bytes) (i : Nat) :
    (extendTo n erase bs).getD i erase = bs.getD i erase :=
  getD_append_replicate _ bs i

theorem length_extendTo (n : Nat) (bs : Bytes) :
    (extendTo n erase bs).length = max n bs.length := by
  rw [extendTo, List.length_append, List.length_replicate]
  omega

/-- Nothing is cut off a string that is brought to a size that it does not exceed. -/
theorem resize_eq_extendTo {n : Nat} {bs : Bytes} (h : bs.length ≤ n) :
    resize n erase bs = extendTo n erase bs := by
  rw [resize, extendTo, List.take_of_length_le h]

theorem getD_slice (bs : Bytes) (start stop i : Nat) :
    (slice bs start stop).getD i erase =
      if i < stop - start then bs.getD (start + i) erase else erase := by
  rw [slice, List.getD_eq_getElem?_getD, List.getElem?_take]
  split
  · rw [List.getElem?_drop, List.getD_eq_getElem?_getD]
  · rfl

theorem slice_eq_iff {bs data : Bytes} {start : Nat} :
    slice bs start (start + data.length) = data ↔
      ∀ i < data.length, bs[start + i]? = data[i]? := by
  have hbyte : ∀ i, (slice bs start (start + data.length))[i]? =
      if i < data.length then bs[start + i]? else none := by
    intro i
    rw [slice, Nat.add_sub_cancel_left, List.getElem?_take, List.getElem?_drop]
  constructor
  · intro h i hi
    rw [← h, hbyte, if_pos hi]
  · intro h
    refine List.ext_getElem? fun i => ?_
    rw [hbyte]
    split
    · rename_i hi
      exact h i hi
    · rename_i hi
      exact (List.getElem?_eq_none (Nat.le_of_not_lt hi)).symm

theorem length_slice_le (bs : Bytes) (start stop : Nat) :
    (slice bs start stop).length ≤ stop - start := by
  rw [slice, List.length_take]
  exact Nat.min_le_left _ _

/-- A slice ends where the string does. -/
theorem slice_clip (bs : Bytes) (start stop : Nat) :
    slice bs (min start bs.length) (min stop bs.length) = slice bs start stop := by
  refine List.ext_getElem? fun i => ?_
  rw [slice, slice, List.getElem?_take, List.getElem?_take, List.getElem?_drop, List.getElem?_drop]
  rcases Nat.lt_or_ge (start + i) bs.length with hin | hout
  · have hstart : start ≤ bs.length := by omega
    have hbound : i < min stop bs.length - start ↔ i < stop - start := by omega
    rw [Nat.min_eq_left hstart, if_congr hbound rfl rfl]
  · rw [List.getElem?_eq_none (by omega), List.getElem?_eq_none hout, ite_self, ite_self]

/-! ## The stripped form of a content -/

/-- A string that agrees with a stripped one is at least as long. -/
theorem Stripped.length_le {a b : Bytes} (hb : Stripped erase b)
    (h : ∀ i, a.getD i erase = b.getD i erase) : b.length ≤ a.length := by
  refine Nat.le_of_not_lt fun hlong => ?_
  have hlast : b.getD (b.length - 1) erase = erase := by
    rw [← h, List.getD_eq_default _ _ (by omega)]
  rw [List.getD_eq_getElem _ _ (by omega)] at hlast
  apply hb
  rw [List.getLast?_eq_getElem?, List.getElem?_eq_getElem (by omega), hlast]

/-- Stripped strings with the same content are equal. -/
theorem Stripped.ext {a b : Bytes} (ha : Stripped erase a) (hb : Stripped erase b)
    (h : ∀ i, a.getD i erase = b.getD i erase) : a = b := by
  have hlength : a.length = b.length :=
    Nat.le_antisymm (ha.length_le fun i => (h i).symm) (hb.length_le h)
  refine List.ext_getElem hlength fun i hi hi' => ?_
  have hbyte := h i
  rwa [List.getD_eq_getElem _ _ hi, List.getD_eq_getElem _ _ hi'] at hbyte

theorem stripped_trimEnd (bs : Bytes) : Stripped erase (trimEnd erase bs) := by
  intro hlast
  have hkept := List.head?_dropWhile_not (· == erase) bs.reverse
  rw [trimEnd, List.getLast?_reverse] at hlast
  rw [hlast] at hkept
  exact absurd hkept (by simp)

/-- Stripping takes away erased bytes only. -/
theorem exists_trimEnd_append (erase : UInt8) (bs : Bytes) :
    ∃ n, bs = trimEnd erase bs ++ List.replicate n erase := by
  have herased : ∀ b ∈ bs.reverse.takeWhile (· == erase), b = erase := by
    intro b hb
    exact eq_of_beq (List.all_eq_true.mp List.all_takeWhile b hb)
  refine ⟨(bs.reverse.takeWhile (· == erase)).length, ?_⟩
  calc
    bs = (bs.reverse.takeWhile (· == erase) ++ bs.reverse.dropWhile (· == erase)).reverse := by
      rw [List.takeWhile_append_dropWhile, List.reverse_reverse]
    _ = trimEnd erase bs ++ (bs.reverse.takeWhile (· == erase)).reverse := List.reverse_append
    _ = trimEnd erase bs ++ List.replicate _ erase := by
      rw [List.eq_replicate_of_mem herased, List.reverse_replicate, List.length_replicate]

theorem getD_trimEnd (bs : Bytes) (i : Nat) :
    (trimEnd erase bs).getD i erase = bs.getD i erase := by
  obtain ⟨n, hbs⟩ := exists_trimEnd_append erase bs
  have hbyte := @getD_append_replicate erase n (trimEnd erase bs) i
  rw [← hbs] at hbyte
  exact hbyte.symm

theorem length_trimEnd_le (bs : Bytes) : (trimEnd erase bs).length ≤ bs.length := by
  obtain ⟨n, hbs⟩ := exists_trimEnd_append erase bs
  have hlength := congrArg List.length hbs
  rw [List.length_append] at hlength
  omega

end Firmware.Bytes
