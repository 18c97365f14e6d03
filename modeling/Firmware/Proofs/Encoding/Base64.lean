import Firmware.Encoding.Base64

/-!
# Base64 is read back

`decode?_encode` : what was written is read back.  The reader takes four characters at a time, as
the writer makes them of three bytes, and treats the last four apart since they may be padded; so
the proof follows the writer, and the bytes read so far are generalized.

`isPlain_of_mem_encode` : the characters can stand in a line of text without being taken for
anything else.
-/

namespace Firmware.Base64

/-! ## The alphabet -/

theorem value?_char {v : Nat} (h : v < 64) : value? (char v) = some v := by
  have hall : ∀ v : Fin 64, value? (char v) = some v.val := by decide
  exact hall ⟨v, h⟩

theorem char_ne_pad {v : Nat} (h : v < 64) : char v ≠ pad := by
  have hall : ∀ v : Fin 64, char v ≠ pad := by decide
  exact hall ⟨v, h⟩

/-- A printable character, other than a blank or a hyphen. -/
def isPlain (c : UInt8) : Bool := 0x2a < c && c < 0x7f && c != 0x2d

theorem isPlain_char {v : Nat} (h : v < 64) : isPlain (char v) = true := by
  have hall : ∀ v : Fin 64, isPlain (char v) = true := by decide
  exact hall ⟨v, h⟩

/-! ## Four characters -/

/-- The values of the four characters for three bytes are those of the alphabet. -/
theorem quarters_lt (a b c : UInt8) :
    a.toNat / 4 < 64 ∧ a.toNat % 4 * 16 + b.toNat / 16 < 64 ∧
      b.toNat % 16 * 4 + c.toNat / 64 < 64 ∧ c.toNat % 64 < 64 := by
  have ha := a.toNat_lt
  have hb := b.toNat_lt
  have hc := c.toNat_lt
  omega

theorem ofNat_eq {a : UInt8} {n : Nat} (h : n = a.toNat) : UInt8.ofNat n = a := by
  rw [h, UInt8.ofNat_toNat]

theorem first_eq (a b : UInt8) :
    UInt8.ofNat (a.toNat / 4 * 4 + (a.toNat % 4 * 16 + b.toNat / 16) / 16) = a := by
  have hb := b.toNat_lt
  exact ofNat_eq (by omega)

theorem second_eq (a b c : UInt8) :
    UInt8.ofNat ((a.toNat % 4 * 16 + b.toNat / 16) % 16 * 16 +
      (b.toNat % 16 * 4 + c.toNat / 64) / 4) = b := by
  have hb := b.toNat_lt
  have hc := c.toNat_lt
  exact ofNat_eq (by omega)

theorem third_eq (b c : UInt8) :
    UInt8.ofNat ((b.toNat % 16 * 4 + c.toNat / 64) % 4 * 64 + c.toNat % 64) = c := by
  have hc := c.toNat_lt
  exact ofNat_eq (by omega)

/-! A byte that is missing counts as zero in the characters. -/

theorem decodeLast?_one (a : UInt8) :
    decodeLast? (char (a.toNat / 4)) (char (a.toNat % 4 * 16)) pad pad = some [a] := by
  obtain ⟨hx, hy, -⟩ : _ ∧ a.toNat % 4 * 16 < 64 ∧ _ := quarters_lt a 0 0
  have hfirst : UInt8.ofNat (a.toNat / 4 * 4 + a.toNat % 4 * 16 / 16) = a := first_eq a 0
  unfold decodeLast?
  rw [value?_char hx, value?_char hy]
  simp only [Option.bind_eq_bind, Option.bind_some, and_self, if_true, Nat.mul_mod_left, hfirst]

theorem decodeLast?_two (a b : UInt8) :
    decodeLast? (char (a.toNat / 4)) (char (a.toNat % 4 * 16 + b.toNat / 16))
      (char (b.toNat % 16 * 4)) pad = some [a, b] := by
  obtain ⟨hx, hy, hz, -⟩ : _ ∧ _ ∧ b.toNat % 16 * 4 < 64 ∧ _ := quarters_lt a b 0
  have hsecond : UInt8.ofNat ((a.toNat % 4 * 16 + b.toNat / 16) % 16 * 16 + b.toNat % 16 * 4 / 4) =
      b := second_eq a b 0
  unfold decodeLast?
  rw [value?_char hx, value?_char hy, value?_char hz]
  simp only [Option.bind_eq_bind, Option.bind_some, char_ne_pad hz, false_and, if_false, if_true,
    Nat.mul_mod_left, first_eq, hsecond]

theorem decodeLast?_three (a b c : UInt8) :
    decodeLast? (char (a.toNat / 4)) (char (a.toNat % 4 * 16 + b.toNat / 16))
      (char (b.toNat % 16 * 4 + c.toNat / 64)) (char (c.toNat % 64)) = some [a, b, c] := by
  obtain ⟨hx, hy, hz, hw⟩ := quarters_lt a b c
  unfold decodeLast?
  rw [value?_char hx, value?_char hy, value?_char hz, value?_char hw]
  simp only [Option.bind_eq_bind, Option.bind_some, char_ne_pad hz, char_ne_pad hw, false_and,
    if_false, first_eq, second_eq, third_eq]

/-! ## Reading back -/

theorem encode_ne_nil {bs : Bytes} (h : bs ≠ []) : encode bs ≠ [] := by
  unfold encode
  split
  · exact absurd rfl h
  · exact List.cons_ne_nil _ _
  · exact List.cons_ne_nil _ _
  · exact List.cons_ne_nil _ _

theorem decodeOnto?_encode (acc bs : Bytes) :
    decodeOnto? acc (encode bs) = some (acc.reverse ++ bs) := by
  induction bs using encode.induct generalizing acc with
  | case1 => rw [encode, decodeOnto?, List.append_nil]
  | case2 a => rw [encode, decodeOnto?, decodeLast?_one, Option.map_some]
  | case3 a b => rw [encode, decodeOnto?, decodeLast?_two, Option.map_some]
  | case4 a b c r ih =>
      rw [encode]
      by_cases hlast : r = []
      · rw [hlast, encode, decodeOnto?, decodeLast?_three, Option.map_some]
      · obtain ⟨hx, hy, hz, hw⟩ := quarters_lt a b c
        rw [decodeOnto?, value?_char hx, value?_char hy, value?_char hz, value?_char hw]
        simp only [Option.bind_eq_bind, Option.bind_some, first_eq, second_eq, third_eq, ih]
        simp only [List.reverse_cons, List.append_assoc, List.cons_append, List.nil_append]
        exact encode_ne_nil hlast

theorem decode?_encode (bs : Bytes) : decode? (encode bs) = some bs := decodeOnto?_encode [] bs

/-! ## The characters -/

theorem length_encode (bs : Bytes) : (encode bs).length = (bs.length + 2) / 3 * 4 := by
  induction bs using encode.induct with
  | case1 => rfl
  | case2 a => simp only [encode, List.length_cons, List.length_nil]
  | case3 a b => simp only [encode, List.length_cons, List.length_nil]
  | case4 a b c r ih =>
      simp only [encode, List.length_cons, ih]
      omega

theorem isPlain_of_mem_encode {bs : Bytes} : ∀ c ∈ encode bs, isPlain c = true := by
  induction bs using encode.induct with
  | case1 => exact nofun
  | case2 a =>
      obtain ⟨hx, hy, -⟩ := quarters_lt a 0 0
      simp only [encode, List.forall_mem_cons]
      exact ⟨isPlain_char hx, isPlain_char hy, rfl, rfl, nofun⟩
  | case3 a b =>
      obtain ⟨hx, hy, hz, -⟩ := quarters_lt a b 0
      simp only [encode, List.forall_mem_cons]
      exact ⟨isPlain_char hx, isPlain_char hy, isPlain_char hz, rfl, nofun⟩
  | case4 a b c r ih =>
      obtain ⟨hx, hy, hz, hw⟩ := quarters_lt a b c
      simp only [encode, List.forall_mem_cons]
      exact ⟨isPlain_char hx, isPlain_char hy, isPlain_char hz, isPlain_char hw, ih⟩

end Firmware.Base64
