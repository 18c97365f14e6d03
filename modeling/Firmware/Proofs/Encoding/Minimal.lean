import Firmware.Proofs.Encoding.Der

/-!
# Encodings without a needless byte

The standard (X.690) says which encoding of a value is the distinguished one without saying how it
is made.  A length below 128 is one byte, and another one is a count and that many digits, the first
of them not zero.  A number is at least one byte with a clear top bit, and its first nine bits are
not all clear.  `IsLength`, `IsInteger` and `IsElement` are these demands.

Each of them is met by one string only, and that is the one written here: `isInteger_iff` for a
number of any size, `isElement_iff` for an element whose length can be told at all.  What has to be
settled is the number of bytes.  It is fixed by the size of the number, from both sides: the bytes
must hold it, and one byte less must not (`furtherBytes_eq_iff`, `minimalBytes_toNatBE`).
-/

namespace Firmware.Der

/-! ## What the standard asks -/

/-- A length in its shortest form. -/
inductive IsLength (n : Nat) : Bytes → Prop
  | short (h : n < 128) : IsLength n [UInt8.ofNat n]
  | long (digits : Bytes) (h : 128 ≤ n) (count : digits.length < 127)
      (value : Bytes.toNatBE digits = n) (leading : digits.head? ≠ some 0) :
      IsLength n (UInt8.ofNat (128 + digits.length) :: digits)

/-- The content of a number that is not negative, in its shortest form. -/
structure IsInteger (n : Nat) (content : Bytes) : Prop where
  nonempty : content ≠ []
  value : Bytes.toNatBE content = n
  /-- The top bit is that of the sign. -/
  clear : ∀ b ∈ content.head?, b < 0x80
  /-- A zero byte in front has to be there. -/
  needed : ∀ b r, content = 0 :: b :: r → 0x80 ≤ b

/-- The encoding of a content under a tag. -/
inductive IsElement (tag : UInt8) (content : Bytes) : Bytes → Prop
  | mk {length : Bytes} (h : IsLength content.length length) :
      IsElement tag content (tag :: length ++ content)

/-! ## Numbers -/

/-- The number of bytes is that of the value: it leaves room for the sign, and one byte less would
not. -/
theorem furtherBytes_eq_iff {n k : Nat} :
    furtherBytes n = k ↔ n < 128 * 256 ^ k ∧ ∀ j, k = j + 1 → 128 * 256 ^ j ≤ n := by
  constructor
  · rintro rfl
    exact ⟨lt_of_furtherBytes n, fun j hj => le_of_furtherBytes_eq_succ hj⟩
  · rintro ⟨hlt, hle⟩
    rw [furtherBytes]
    split
    · rename_i hzero
      cases k with
      | zero => rfl
      | succ j =>
          have hpos : 0 < 128 * 256 ^ j := Nat.mul_pos (by decide) (Nat.pow_pos (by decide))
          exact absurd (hle j rfl) (by omega)
    · rename_i hne
      rw [← two_pow_eq, ← Nat.log2_lt hne] at hlt
      cases k with
      | zero => omega
      | succ j =>
          have hlow := hle j rfl
          rw [← two_pow_eq, ← Nat.le_log2 hne] at hlow
          omega

variable {n : Nat} {content : Bytes}

/-- The number of bytes of a content that the standard allows. -/
theorem IsInteger.length_eq (h : IsInteger n content) : content.length = furtherBytes n + 1 := by
  obtain ⟨hne, hvalue, hclear, hneeded⟩ := h
  cases content with
  | nil => exact absurd rfl hne
  | cons b r =>
      have hb : b.toNat < 128 := UInt8.lt_iff_toNat_lt.mp (hclear b rfl)
      have hr := Bytes.toNatBE_lt r
      rw [Bytes.toNatBE_cons] at hvalue
      have hlength : furtherBytes n = r.length := by
        rw [furtherBytes_eq_iff]
        constructor
        · have hstep : b.toNat * 256 ^ r.length + 256 ^ r.length ≤ 128 * 256 ^ r.length := by
            rw [← Nat.succ_mul]
            exact Nat.mul_le_mul_right _ hb
          omega
        · intro j hj
          rw [hj] at hvalue
          cases r with
          | nil => cases hj
          | cons c r =>
              obtain rfl : r.length = j := Nat.succ.inj hj
              rw [Bytes.toNatBE_cons] at hvalue
              by_cases hzero : b = 0
              · -- Behind a zero byte, the next one is at least 128.
                have hc : 128 ≤ c.toNat := UInt8.le_iff_toNat_le.mp (hneeded c r (by rw [hzero]))
                have hdigit := Nat.mul_le_mul_right (256 ^ r.length) hc
                omega
              · have hpos : 1 ≤ b.toNat := by
                  rw [← UInt8.toNat_inj] at hzero
                  exact Nat.pos_of_ne_zero hzero
                have hdigit := Nat.mul_le_mul_right (256 ^ (r.length + 1)) hpos
                rw [Nat.pow_succ] at hdigit hvalue
                omega
      rw [List.length_cons, hlength]

/-- What reads as a number is as the standard asks. -/
theorem isInteger_of_natural? (h : (Element.mk integerTag content).natural? = some n) :
    IsInteger n content := by
  have hread : (Element.mk integerTag content).expect? integerTag = some content := if_pos rfl
  rw [Element.natural?, hread] at h
  simp only [Option.bind_eq_bind, Option.bind_some] at h
  match content, h with
  | [], h => cases h
  | [b], h =>
      change (if _ then _ else _) = _ at h
      split at h
      · rename_i hb
        obtain rfl := Option.some.inj h
        refine ⟨List.cons_ne_nil _ _, Nat.zero_add _, ?_, fun c r hc => nomatch hc⟩
        rintro _ ⟨⟩
        exact hb
      · cases h
  | b :: c :: r, h =>
      change (if _ then _ else _) = _ at h
      split at h
      · cases h
      · rename_i hkept
        rw [not_or, not_and, UInt8.not_le, UInt8.not_lt] at hkept
        obtain ⟨hb, hneeded⟩ := hkept
        refine ⟨List.cons_ne_nil _ _, Option.some.inj h, ?_, ?_⟩
        · rintro _ ⟨⟩
          exact hb
        · rintro c' r' ⟨⟩
          exact hneeded rfl

/-- A number has one shortest form, and it is the one that is written. -/
theorem isInteger_iff : IsInteger n content ↔ (integer n).content = content := by
  constructor
  · intro h
    rw [content_integer, ← h.length_eq, ← h.value]
    exact Bytes.ofNatBE_toNatBE content
  · rintro rfl
    exact isInteger_of_natural? (natural?_integer n)

/-! ## Lengths -/

theorem pow_eq_two_pow (k : Nat) : 256 ^ k = 2 ^ (8 * k) := (Nat.pow_mul 2 8 k).symm

/-- The digits of a number without a zero in front are those that are written. -/
theorem minimalBytes_toNatBE {digits : Bytes} (hne : digits ≠ []) (h : digits.head? ≠ some 0) :
    minimalBytes (Bytes.toNatBE digits) = digits := by
  cases digits with
  | nil => exact absurd rfl hne
  | cons b r =>
      have hpos : 1 ≤ b.toNat := by
        refine Nat.pos_of_ne_zero fun hzero => h ?_
        have hb : b = 0 := UInt8.toNat_inj.mp hzero
        rw [hb, List.head?_cons]
      have hfirst := Nat.mul_le_mul_right (256 ^ r.length) hpos
      have hle : 256 ^ r.length ≤ Bytes.toNatBE (b :: r) := by
        rw [Bytes.toNatBE_cons]
        omega
      have hlt : Bytes.toNatBE (b :: r) < 256 ^ (r.length + 1) := Bytes.toNatBE_lt (b :: r)
      have hn : Bytes.toNatBE (b :: r) ≠ 0 :=
        Nat.ne_of_gt (Nat.lt_of_lt_of_le (Nat.pow_pos (by decide)) hle)
      rw [pow_eq_two_pow, ← Nat.le_log2 hn] at hle
      rw [pow_eq_two_pow, ← Nat.log2_lt hn] at hlt
      have hcount : Nat.log2 (Bytes.toNatBE (b :: r)) / 8 + 1 = (b :: r).length := by
        rw [List.length_cons]
        omega
      rw [minimalBytes, if_neg hn, hcount]
      exact Bytes.ofNatBE_toNatBE (b :: r)

theorem head?_minimalBytes (h : n ≠ 0) : (minimalBytes n).head? ≠ some 0 := by
  have hbits : 256 ^ (Nat.log2 n / 8) ≤ n := by
    have hlow : 8 * (Nat.log2 n / 8) ≤ Nat.log2 n := Nat.mul_div_le _ 8
    rw [pow_eq_two_pow]
    exact (Nat.le_log2 h).mp hlow
  have hpos : 0 < 256 ^ (Nat.log2 n / 8) := Nat.pow_pos (by decide)
  have hfirst : n / 256 ^ (Nat.log2 n / 8) < 256 := by
    have hlt := lt_pow_minimal n
    rw [Nat.pow_succ] at hlt
    exact Nat.div_lt_of_lt_mul hlt
  rw [minimalBytes, if_neg h, Bytes.ofNatBE_succ, List.head?_cons]
  intro hzero
  have hvalue := congrArg UInt8.toNat (Option.some.inj hzero)
  rw [UInt8.toNat_ofNat_of_lt' hfirst] at hvalue
  exact absurd (Nat.div_pos hbits hpos) (Nat.not_lt_of_le (Nat.le_of_eq hvalue))

/-- A length has one shortest form, and it is the one that is written, as long as the digits can be
counted. -/
theorem isLength_iff {k : Nat} {bytes : Bytes} (hk : k ≤ 126) (h : n < 256 ^ k) :
    IsLength n bytes ↔ lengthBytes n = bytes := by
  rw [lengthBytes]
  constructor
  · intro hlength
    cases hlength with
    | short hshort => exact if_pos hshort
    | long digits hlong count value leading =>
        obtain rfl := value
        have hne : digits ≠ [] := by
          rintro rfl
          exact absurd hlong (by decide)
        rw [if_neg (Nat.not_lt_of_le hlong), minimalBytes_toNatBE hne leading]
  · rintro rfl
    split
    · rename_i hshort
      exact .short hshort
    · rename_i hlong
      have hne : n ≠ 0 := by omega
      obtain ⟨hcount, hvalue⟩ := minimalBytes_of_ne_zero hne
      rw [pow_eq_two_pow, ← Nat.log2_lt hne] at h
      exact .long _ (Nat.le_of_not_lt hlong) (by omega) hvalue (head?_minimalBytes hne)

/-! ## Elements -/

theorem isElement_iff {tag : UInt8} {k : Nat} {bytes : Bytes} (hk : k ≤ 126)
    (h : content.length < 256 ^ k) :
    IsElement tag content bytes ↔ (Element.mk tag content).toBytes = bytes := by
  rw [Element.toBytes]
  constructor
  · rintro ⟨hlength⟩
    rw [(isLength_iff hk h).mp hlength]
  · rintro rfl
    exact .mk ((isLength_iff hk h).mpr rfl)

end Firmware.Der
