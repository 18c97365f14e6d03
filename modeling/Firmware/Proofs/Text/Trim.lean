import Firmware.Proofs.Bytes.Text
import Firmware.Text.Blank

/-!
# Trimming

`trimBoth_append` : what is removed at both ends of a list is exactly what was put there, as long as
the rest neither starts nor ends with a member that would be removed, too.

A text with blanks around it is trimmed to what stands between them (`trim_append`).  As bytes the
blanks are control codes, spaces, or bytes beyond ASCII (`isBetween_of_isBlank`), so they have
nothing in common with printable characters.
-/

namespace Firmware

section TrimBoth

variable {α : Type} {p : α → Bool} {front core back : List α}

theorem dropWhile_append_of_head? (hfront : ∀ a ∈ front, p a = true)
    (hhead : ∀ a ∈ core.head?, p a = false) : (front ++ core).dropWhile p = core := by
  rw [List.dropWhile_append_of_pos hfront]
  cases core with
  | nil => rfl
  | cons a core =>
      have ha := hhead a rfl
      rw [List.dropWhile_cons, ha]
      rfl

/-- Trimming at both ends removes what stands around the core. -/
theorem trimBoth_append (hfront : ∀ a ∈ front, p a = true) (hback : ∀ a ∈ back, p a = true)
    (hhead : ∀ a ∈ core.head?, p a = false) (hlast : ∀ a ∈ core.getLast?, p a = false) :
    (((front ++ core ++ back).dropWhile p).reverse.dropWhile p).reverse = core := by
  by_cases hcore : core = []
  · -- Without a core, the first pass takes the back with the front.
    have hall : ∀ a ∈ front ++ core ++ back, p a = true := by
      rw [hcore, List.append_nil, List.forall_mem_append]
      exact ⟨hfront, hback⟩
    have hgone : (front ++ core ++ back ++ []).dropWhile p = [] :=
      dropWhile_append_of_head? hall nofun
    rw [List.append_nil] at hgone
    rw [hgone, hcore]
    rfl
  · have hstart : ∀ a ∈ (core ++ back).head?, p a = false := by
      rw [List.head?_append, List.head?_eq_some_head hcore, Option.some_or]
      rwa [List.head?_eq_some_head hcore] at hhead
    have hend : ∀ a ∈ back.reverse, p a = true := fun a ha => hback a (List.mem_reverse.mp ha)
    rw [← List.head?_reverse] at hlast
    rw [List.append_assoc, dropWhile_append_of_head? hfront hstart, List.reverse_append,
      dropWhile_append_of_head? hend hlast, List.reverse_reverse]

end TrimBoth

namespace Text

theorem trim_append {front core back : String} (hfront : ∀ c ∈ front.toList, isBlank c = true)
    (hback : ∀ c ∈ back.toList, isBlank c = true)
    (hhead : ∀ c ∈ core.toList.head?, isBlank c = false)
    (hlast : ∀ c ∈ core.toList.getLast?, isBlank c = false) : trim (front ++ core ++ back) = core := by
  have htrim := trimBoth_append hfront hback hhead hlast
  rw [trim, trimChars, String.toList_append, String.toList_append, htrim, String.ofList_toList]

/-- A byte of a blank: a control code, a space, or a byte beyond ASCII. -/
def isBetween (b : UInt8) : Bool := b ≤ 0x20 || 0x80 ≤ b

theorem isBetween_ofNat {n : Nat} (hlow : 0x80 ≤ n) (hhigh : n < 256) :
    isBetween (UInt8.ofNat n) = true := by
  rw [isBetween, Bool.or_eq_true]
  refine .inr (decide_eq_true ?_)
  rw [UInt8.le_iff_toNat_le, UInt8.toNat_ofNat_of_lt' hhigh]
  exact hlow

theorem isBetween_of_isBlank {c : Char} (h : isBlank c = true) :
    ∀ b ∈ String.utf8EncodeChar c, isBetween b = true := by
  unfold String.utf8EncodeChar
  dsimp only
  split
  · rename_i hascii
    have hlow : c.val.toNat ≤ 0x20 := by
      simp only [isBlank, Char.toNat, Bool.or_eq_true, Bool.and_eq_true, decide_eq_true_eq,
        beq_iff_eq] at h
      omega
    rw [List.forall_mem_singleton, isBetween, Bool.or_eq_true]
    refine .inl (decide_eq_true ?_)
    rw [UInt8.le_iff_toNat_le, UInt8.toNat_ofNat_of_lt' (Nat.lt_of_le_of_lt hlow (by decide))]
    exact hlow
  · -- The first byte has its two highest bits set, and the others the highest one.
    split
    · simp only [List.forall_mem_cons]
      exact ⟨isBetween_ofNat (by omega) (by omega), isBetween_ofNat (by omega) (by omega), nofun⟩
    · split
      · simp only [List.forall_mem_cons]
        exact ⟨isBetween_ofNat (by omega) (by omega), isBetween_ofNat (by omega) (by omega),
          isBetween_ofNat (by omega) (by omega), nofun⟩
      · simp only [List.forall_mem_cons]
        exact ⟨isBetween_ofNat (by omega) (by omega), isBetween_ofNat (by omega) (by omega),
          isBetween_ofNat (by omega) (by omega), isBetween_ofNat (by omega) (by omega), nofun⟩

end Text

end Firmware
