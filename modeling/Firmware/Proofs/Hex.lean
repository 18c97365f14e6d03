import Firmware.Hex
import Mathlib.Data.String.Basic

/-!
# Hexadecimal text keeps the order

`encode_lt_encode` : byte strings and their lowercase texts are in the same order, since a digit
with a larger value is a larger character and every byte has two digits.  A list of byte strings may
therefore be sorted before it is turned into text, as well as afterwards.
-/

namespace Firmware

/-- The comparison of byte strings is the lexicographic order of lists. -/
theorem Bytes.ble_iff_le : ∀ {a b : Bytes}, ble a b = true ↔ a ≤ b
  | [], b => by simp [ble]
  | a :: as, [] => by simp [ble]
  | a :: as, b :: bs => by simp [ble, List.cons_le_cons_iff, ble_iff_le]

namespace Hex

theorem digit_lt_digit {m n : Nat} (hn : n < 16) (h : m < n) : digit m < digit n := by
  have hall : ∀ n < 16, ∀ m < n, digit m < digit n := by decide
  exact hall n hn m h

theorem encodeChars_cons (b : UInt8) (bs : Bytes) :
    encodeChars (b :: bs) = digit (b.toNat / 16) :: digit (b.toNat % 16) :: encodeChars bs := rfl

theorem encodeChars_lt_encodeChars : ∀ {a b : Bytes}, a < b → encodeChars a < encodeChars b
  | a, [], h => absurd h (List.not_lt_nil a)
  | [], b :: bs, _ => List.nil_lt_cons _ _
  | a :: as, b :: bs, h => by
      simp only [encodeChars_cons, List.cons_lt_cons_iff]
      rcases List.cons_lt_cons_iff.mp h with hlt | ⟨rfl, hrest⟩
      · have hnat : a.toNat < b.toNat := hlt
        have hbound : b.toNat < 256 := b.toNat_lt
        -- The first digits differ, or they are equal and the second ones differ.
        by_cases hhigh : a.toNat / 16 = b.toNat / 16
        · exact .inr ⟨by rw [hhigh], .inl (digit_lt_digit (by omega) (by omega))⟩
        · exact .inl (digit_lt_digit (by omega) (by omega))
      · exact .inr ⟨rfl, .inr ⟨rfl, encodeChars_lt_encodeChars hrest⟩⟩

theorem encode_lt_encode {a b : Bytes} (h : a < b) : encode a < encode b := by
  rw [String.lt_iff_toList_lt, encode, encode, String.toList_ofList, String.toList_ofList]
  exact encodeChars_lt_encodeChars h

theorem encode_injective : Function.Injective encode := by
  intro a b h
  by_contra hne
  rcases List.le_total a b with hle | hle
  · exact absurd h (ne_of_lt (encode_lt_encode (Std.lt_of_le_of_ne hle hne)))
  · exact absurd h (ne_of_gt (encode_lt_encode (Std.lt_of_le_of_ne hle (Ne.symm hne))))

end Hex

end Firmware
