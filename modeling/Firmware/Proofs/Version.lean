import Firmware.Version
import Mathlib.Algebra.Group.Nat.Defs

/-!
# The texts of versions

`parse_iff_accepted` : a text denotes a version exactly if the pieces between its dots are one to
four numerals, each within the width of its place.  It denotes the version with their numbers, and
with zeros in the places that are left; every other text comes back in the error.  The text of a
version denotes that version.

Pieces and numerals are those of the library, `List.splitOn` and `Nat.ofDigitChars`, and the latter
knows no bound.  The reader counts in 64 bits, and loses nothing by that
(`foldlM_push?_eq_some_iff`): a number never shrinks while digits are put behind it, so one that
fits in the end has fitted all the time, behind any number of zeros.
-/

namespace Firmware

/-- Splitting is that of the library. -/
theorem Text.splitOn_eq {α : Type} [BEq α] (sep : α) (as : List α) :
    splitOn sep as = as.splitOn sep := by
  induction as with
  | nil => rfl
  | cons a as ih =>
      rw [splitOn, List.splitOn_cons_eq_if_modifyHead, ih]
      split
      · rfl
      · cases h : as.splitOn sep with
        | nil => exact absurd h (List.splitOn_ne_nil sep as)
        | cons piece pieces => rfl

namespace Version

/-! ## What a text says -/

/-- What stands between the dots of a text. -/
def pieces (s : String) : List (List Char) := s.toList.splitOn '.'

/-- One or more decimal digits; any number of them may be zeros in front. -/
def IsNumeral (cs : List Char) : Prop := cs ≠ [] ∧ ∀ c ∈ cs, c.isDigit = true

/-- The number that decimal digits denote. -/
def value (cs : List Char) : Nat := Nat.ofDigitChars 10 cs 0

/-- The numbers of a version in the order of its text. -/
def numbers (v : Version) : List Nat :=
  [v.major.toNat, v.minor.toNat, v.revision.toNat, v.build.toNat]

/-- The bits of each number of a version. -/
def widths : List Nat := [8, 8, 16, 32]

/-- Pieces that make up the text of a version. -/
structure Accepted (pieces : List (List Char)) : Prop where
  pos : 1 ≤ pieces.length
  le : pieces.length ≤ 4
  numerals : ∀ cs ∈ pieces, IsNumeral cs
  fits : ∀ p ∈ pieces.zip widths, value p.1 < 2 ^ p.2

/-! ## Numerals -/

variable {c : Char} {cs : List Char} {n m : UInt64}

theorem digit?_eq_some_iff {d : Nat} : digit? c = some d ↔ c.isDigit = true ∧ c.toNat - 48 = d := by
  have hdigit : ('0' ≤ c ∧ c ≤ '9') ↔ c.isDigit = true := by
    rw [Char.isDigit_iff_toNat]
    rfl
  rw [digit?, ← hdigit]
  split
  · rename_i h
    simp only [Option.some.injEq, h, true_and]
  · rename_i h
    simp only [reduceCtorEq, h, false_and]

/-- A digit is put behind a number exactly if the result is one of 64 bits. -/
theorem push?_eq_some_iff :
    push? n c = some m ↔ c.isDigit = true ∧ 10 * n.toNat + (c.toNat - 48) = m.toNat := by
  rw [push?, Option.bind_eq_bind, Option.bind_eq_some_iff]
  constructor
  · rintro ⟨d, hd, h⟩
    obtain ⟨hdigit, rfl⟩ := digit?_eq_some_iff.mp hd
    split at h
    · rename_i hlt
      cases h
      exact ⟨hdigit, (UInt64.toNat_ofNat_of_lt' hlt).symm⟩
    · cases h
  · rintro ⟨hdigit, h⟩
    refine ⟨_, digit?_eq_some_iff.mpr ⟨hdigit, rfl⟩, ?_⟩
    rw [h, if_pos m.toNat_lt_size, UInt64.ofNat_toNat]

theorem le_ofDigitChars (cs : List Char) (init : Nat) : init ≤ Nat.ofDigitChars 10 cs init := by
  rw [Nat.ofDigitChars_eq_ofDigitChars_zero]
  exact Nat.le_add_right_of_le (Nat.le_mul_of_pos_left init (Nat.pow_pos (by decide)))

/-- Reading in 64 bits succeeds for the digits of every number of 64 bits, and finds it. -/
theorem foldlM_push?_eq_some_iff :
    cs.foldlM push? n = some m ↔
      (∀ c ∈ cs, c.isDigit = true) ∧ Nat.ofDigitChars 10 cs n.toNat = m.toNat := by
  induction cs generalizing n with
  | nil => simp [Nat.ofDigitChars_nil, UInt64.toNat_inj]
  | cons c cs ih =>
      rw [List.foldlM_cons, Option.bind_eq_bind, Option.bind_eq_some_iff, List.forall_mem_cons,
        Nat.ofDigitChars_cons]
      constructor
      · rintro ⟨k, hk, h⟩
        obtain ⟨hdigit, hpush⟩ := push?_eq_some_iff.mp hk
        obtain ⟨hdigits, hvalue⟩ := ih.mp h
        rw [← hpush] at hvalue
        exact ⟨⟨hdigit, hdigits⟩, hvalue⟩
      · rintro ⟨⟨hdigit, hdigits⟩, hvalue⟩
        -- The number so far is not above the last one, which has 64 bits.
        have hlt : 10 * n.toNat + (c.toNat - 48) < UInt64.size :=
          Nat.lt_of_le_of_lt (le_ofDigitChars cs _) (hvalue ▸ m.toNat_lt_size)
        have hk := UInt64.toNat_ofNat_of_lt' hlt
        exact ⟨_, push?_eq_some_iff.mpr ⟨hdigit, hk.symm⟩, ih.mpr ⟨hdigits, hk.symm ▸ hvalue⟩⟩

theorem piece?_eq_some_iff : piece? cs = some n ↔ IsNumeral cs ∧ value cs = n.toNat := by
  cases cs with
  | nil => simp [piece?, IsNumeral]
  | cons c cs =>
      rw [piece?, foldlM_push?_eq_some_iff, IsNumeral, value]
      · simp
      · nofun

/-- The pieces are read if they are numerals with numbers of 64 bits. -/
theorem mapM_piece?_eq_some_iff {css : List (List Char)} {ns : List UInt64} :
    css.mapM piece? = some ns ↔
      (∀ cs ∈ css, IsNumeral cs) ∧ css.map value = ns.map UInt64.toNat := by
  induction css generalizing ns with
  | nil => simp [eq_comm]
  | cons cs css ih =>
      simp only [List.mapM_cons, Option.bind_eq_bind, Option.bind_eq_some_iff, piece?_eq_some_iff,
        ih, List.forall_mem_cons, List.map_cons]
      constructor
      · rintro ⟨n, ⟨hnumeral, hvalue⟩, ns, ⟨hnumerals, hvalues⟩, h⟩
        cases h
        exact ⟨⟨hnumeral, hnumerals⟩, by rw [hvalue, hvalues, List.map_cons]⟩
      · rintro ⟨⟨hnumeral, hnumerals⟩, h⟩
        obtain ⟨n, ns, rfl, hvalue, hvalues⟩ := List.map_eq_cons_iff.mp h.symm
        exact ⟨n, ⟨hnumeral, hvalue.symm⟩, ns, ⟨hnumerals, hvalues.symm⟩, rfl⟩

/-! ## Numbers in their places -/

theorem numbers_injective : Function.Injective numbers := by
  rintro ⟨a, b, c, d⟩ ⟨a', b', c', d'⟩ h
  simpa [numbers, UInt8.toNat_inj, UInt16.toNat_inj, UInt32.toNat_inj] using h

/-- The numbers of versions are those within the widths of their places. -/
theorem exists_numbers_iff {a b c d : Nat} :
    (∃ v : Version, v.numbers = [a, b, c, d]) ↔
      a < UInt8.size ∧ b < UInt8.size ∧ c < UInt16.size ∧ d < UInt32.size := by
  constructor
  · rintro ⟨v, h⟩
    cases h
    exact ⟨v.major.toNat_lt_size, v.minor.toNat_lt_size, v.revision.toNat_lt_size,
      v.build.toNat_lt_size⟩
  · rintro ⟨ha, hb, hc, hd⟩
    refine ⟨⟨UInt8.ofNat a, UInt8.ofNat b, UInt16.ofNat c, UInt32.ofNat d⟩, ?_⟩
    rw [numbers, UInt8.toNat_ofNat_of_lt' ha, UInt8.toNat_ofNat_of_lt' hb,
      UInt16.toNat_ofNat_of_lt' hc, UInt32.toNat_ofNat_of_lt' hd]

theorem lt_of_mem_numbers {v : Version} {k : Nat} (h : k ∈ v.numbers) : k < UInt64.size := by
  obtain ⟨ha, hb, hc, hd⟩ := exists_numbers_iff.mp ⟨v, rfl⟩
  rw [numbers, List.mem_cons, List.mem_cons, List.mem_cons, List.mem_singleton] at h
  rcases h with rfl | rfl | rfl | rfl
  · exact Nat.lt_trans ha (by decide)
  · exact Nat.lt_trans hb (by decide)
  · exact Nat.lt_trans hc (by decide)
  · exact Nat.lt_trans hd (by decide)

/-- Narrowing keeps every number, or there is no version. -/
theorem ofNumbers?_eq_some_iff {a b c d : UInt64} {v : Version} :
    ofNumbers? a b c d = some v ↔ v.numbers = [a.toNat, b.toNat, c.toNat, d.toNat] := by
  rw [ofNumbers?]
  split
  · rename_i hfits
    have hnumbers : (⟨a.toUInt8, b.toUInt8, c.toUInt16, d.toUInt32⟩ : Version).numbers =
        [a.toNat, b.toNat, c.toNat, d.toNat] := by
      obtain ⟨ha, hb, hc, hd⟩ := hfits
      rw [numbers, UInt64.toNat_toUInt8, UInt64.toNat_toUInt8, UInt64.toNat_toUInt16,
        UInt64.toNat_toUInt32, Nat.mod_eq_of_lt ha, Nat.mod_eq_of_lt hb, Nat.mod_eq_of_lt hc,
        Nat.mod_eq_of_lt hd]
    constructor
    · intro h
      cases h
      exact hnumbers
    · intro h
      exact congrArg some (numbers_injective (hnumbers.trans h.symm))
  · rename_i hfits
    constructor
    · nofun
    · intro h
      exact absurd (exists_numbers_iff.mp ⟨v, h⟩) hfits

/-- Zeros fit in every place, so only the numbers in front of them matter. -/
theorem exists_numbers_rightpad_iff :
    ∀ {ns : List Nat}, ns.length ≤ 4 →
      ((∃ v : Version, v.numbers = ns.rightpad 4 0) ↔ ∀ p ∈ ns.zip widths, p.1 < 2 ^ p.2)
  | [], _ => by simp [List.rightpad, exists_numbers_iff]
  | [a], _ => by simp [List.rightpad, exists_numbers_iff, widths]
  | [a, b], _ => by simp [List.rightpad, exists_numbers_iff, widths]
  | [a, b, c], _ => by simp [List.rightpad, exists_numbers_iff, widths]
  | [a, b, c, d], _ => by simp [List.rightpad, exists_numbers_iff, widths]
  | _ :: _ :: _ :: _ :: _ :: _, h => absurd h (by simp)

theorem getD_eq_rightpad :
    ∀ {ns : List UInt64}, ns.length ≤ 4 →
      [(ns.getD 0 0).toNat, (ns.getD 1 0).toNat, (ns.getD 2 0).toNat, (ns.getD 3 0).toNat] =
        (ns.map UInt64.toNat).rightpad 4 0
  | [], _ => rfl
  | [_], _ => rfl
  | [_, _], _ => rfl
  | [_, _, _], _ => rfl
  | [_, _, _, _], _ => rfl
  | _ :: _ :: _ :: _ :: _ :: _, h => absurd h (by simp)

/-! ## Texts -/

variable {s : String} {css : List (List Char)} {v : Version}

theorem ofPieces?_eq_some_iff :
    ofPieces? css = some v ↔
      css.length ≤ 4 ∧ (∀ cs ∈ css, IsNumeral cs) ∧ v.numbers = (css.map value).rightpad 4 0 := by
  rw [ofPieces?]
  split
  · rename_i hle
    simp only [Option.bind_eq_bind, Option.bind_eq_some_iff, mapM_piece?_eq_some_iff,
      ofNumbers?_eq_some_iff, hle, true_and]
    constructor
    · rintro ⟨ns, ⟨hnumerals, hvalues⟩, hv⟩
      have hlength : css.length = ns.length := by simpa using congrArg List.length hvalues
      rw [getD_eq_rightpad (hlength ▸ hle), ← hvalues] at hv
      exact ⟨hnumerals, hv⟩
    · rintro ⟨hnumerals, hv⟩
      -- The values are among the numbers of `v`, so they have 64 bits.
      have hlt : ∀ cs ∈ css, value cs < UInt64.size := by
        intro cs hcs
        refine lt_of_mem_numbers (v := v) ?_
        rw [hv]
        exact List.mem_append_left _ (List.mem_map_of_mem hcs)
      have hvalues : css.map value =
          (css.map fun cs => UInt64.ofNat (value cs)).map UInt64.toNat := by
        rw [List.map_map]
        exact List.map_congr_left fun cs hcs => (UInt64.toNat_ofNat_of_lt' (hlt cs hcs)).symm
      refine ⟨_, ⟨hnumerals, hvalues⟩, ?_⟩
      rw [getD_eq_rightpad (by rwa [List.length_map]), ← hvalues, hv]
  · rename_i hlt
    simp only [reduceCtorEq, hlt, false_and]

theorem exists_numbers_iff_fits (h : css.length ≤ 4) :
    (∃ v : Version, v.numbers = (css.map value).rightpad 4 0) ↔
      ∀ p ∈ css.zip widths, value p.1 < 2 ^ p.2 := by
  rw [exists_numbers_rightpad_iff (by rwa [List.length_map]), List.zip_map_left,
    List.forall_mem_map]
  rfl

theorem parse?_eq_some_iff :
    parse? s = some v ↔
      Accepted (pieces s) ∧ v.numbers = ((pieces s).map value).rightpad 4 0 := by
  rw [parse?, Text.splitOn_eq, ← pieces, ofPieces?_eq_some_iff]
  constructor
  · rintro ⟨hle, hnumerals, hv⟩
    have hpos : 1 ≤ (pieces s).length :=
      List.length_pos_iff.mpr (List.splitOn_ne_nil '.' s.toList)
    exact ⟨⟨hpos, hle, hnumerals, (exists_numbers_iff_fits hle).mp ⟨v, hv⟩⟩, hv⟩
  · rintro ⟨haccepted, hv⟩
    exact ⟨haccepted.le, haccepted.numerals, hv⟩

theorem exists_parse?_iff : (∃ v, parse? s = some v) ↔ Accepted (pieces s) := by
  constructor
  · rintro ⟨v, hv⟩
    exact (parse?_eq_some_iff.mp hv).1
  · intro h
    obtain ⟨v, hv⟩ := (exists_numbers_iff_fits h.le).mpr h.fits
    exact ⟨v, parse?_eq_some_iff.mpr ⟨h, hv⟩⟩

theorem isNumeral_toDigits (k : Nat) : IsNumeral (Nat.toDigits 10 k) :=
  ⟨Nat.toDigits_ne_nil, fun _ hc => Nat.isDigit_of_mem_toDigits (by decide) (by decide) hc⟩

/-- No dot is a digit, so the text of a version falls into its numbers again. -/
theorem pieces_toText (v : Version) : pieces v.toText = v.numbers.map (Nat.toDigits 10) := by
  have htext : v.toText.toList = ['.'].intercalate (v.numbers.map (Nat.toDigits 10)) := by
    rw [toText, String.toList_intercalate]
    simp [numbers]
  rw [pieces, htext, List.splitOn_intercalate]
  · rw [List.forall_mem_map]
    intro k _ hdot
    exact absurd ((isNumeral_toDigits k).2 '.' hdot) (by decide)
  · exact List.cons_ne_nil _ _

theorem parse?_toText (v : Version) : parse? v.toText = some v := by
  rw [parse?, Text.splitOn_eq, ← pieces, pieces_toText, ofPieces?_eq_some_iff]
  refine ⟨Nat.le_refl 4, ?_, ?_⟩
  · rw [List.forall_mem_map]
    exact fun k _ => isNumeral_toDigits k
  · have hvalue : value ∘ Nat.toDigits 10 = id := funext fun _ => Nat.ofDigitChars_ten_toDigits
    rw [List.map_map, hvalue, List.map_id]
    rfl

theorem parse_eq_ok_iff : parse s = .ok v ↔ parse? s = some v := by
  rw [parse]
  cases parse? s with
  | none => simp
  | some w => simp

theorem parse_eq_error_iff {e : Error} : parse s = .error e ↔ parse? s = none ∧ e = .invalid s := by
  rw [parse]
  cases parse? s with
  | none => simp [eq_comm]
  | some w => simp

/-- Which texts denote a version, and which one it is.  All others come back in the error, and the
text of a version denotes it. -/
theorem parse_iff_accepted :
    (∀ s, ((∃ v, parse s = .ok v) ↔ Accepted (pieces s)) ∧
      (∀ v, parse s = .ok v ↔
        Accepted (pieces s) ∧ v.numbers = ((pieces s).map value).rightpad 4 0) ∧
      ∀ e, parse s = .error e ↔ ¬Accepted (pieces s) ∧ e = .invalid s) ∧
    ∀ v : Version, parse v.toText = .ok v := by
  refine ⟨fun s => ⟨?_, fun v => ?_, fun e => ?_⟩, fun v => ?_⟩
  · simp only [parse_eq_ok_iff, exists_parse?_iff]
  · rw [parse_eq_ok_iff, parse?_eq_some_iff]
  · rw [parse_eq_error_iff, ← exists_parse?_iff, Option.eq_none_iff_forall_ne_some, not_exists]
  · exact parse_eq_ok_iff.mpr (parse?_toText v)

/-- Zeros in front do not count towards the 64 bits, and a number beyond them is refused. -/
example : parse? "000000000000000000000255.1" = some ⟨255, 1, 0, 0⟩ ∧
    parse? "0.0.0.18446744073709551616" = none := by decide

end Version

end Firmware
