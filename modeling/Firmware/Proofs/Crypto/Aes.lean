import Firmware.Crypto.Aes
import Firmware.Proofs.Bytes

/-!
# Decrypting a block undoes encrypting it

`decryptBlock_encryptBlock` : under the same round keys, of 16 bytes each, every block comes back.
`length_of_mem_roundKeys` : the round keys of a key of any supported size are such keys.

Each layer of a round has its inverse.  The tables are inverse by evaluation; the rows by
rearranging; the columns by algebra alone, since doubling is additive and that is all that the
inverse of `mixColumns` needs: as a polynomial over the doubling, the coefficients of the product
cancel without any reduction.

The rounds are undone from the last one on while the keys are given from the first one on, so the
induction is on the keys that are still to be used for encryption and carries those already used
along: `decryptBlock_encryptRounds`.
-/

namespace Firmware.Crypto.Aes

/-! ## Sums of bytes -/

theorem forall_byte {P : UInt8 → Prop} (h : ∀ n < 256, P (UInt8.ofNat n)) (b : UInt8) : P b := by
  have hb := h b.toNat b.toNat_lt
  rwa [UInt8.ofNat_toNat] at hb

theorem xor_left_comm (a b c : UInt8) : a ^^^ (b ^^^ c) = b ^^^ (a ^^^ c) := by
  rw [← UInt8.xor_assoc, UInt8.xor_comm a b, UInt8.xor_assoc]

theorem xor_cancel_left (a b : UInt8) : a ^^^ (a ^^^ b) = b := by
  rw [← UInt8.xor_assoc, UInt8.xor_self, UInt8.zero_xor]

/-! ## The byte substitution -/

theorem lookup_eq (table : Array UInt8) (b : UInt8) :
    lookup table b = table.toList[b.toNat]?.getD 0 := by
  rw [lookup, Array.getD_eq_getD_getElem?, Array.getElem?_toList]

theorem lookup_invSbox_lookup_sbox (b : UInt8) : lookup invSbox (lookup sbox b) = b := by
  refine forall_byte (P := fun b => lookup invSbox (lookup sbox b) = b) ?_ b
  -- on lists the evaluation does not compute the size of a table at every step
  simp only [lookup_eq]
  decide +kernel

theorem map_invSbox_map_sbox (s : Bytes) :
    (s.map (lookup sbox)).map (lookup invSbox) = s := by
  induction s with
  | nil => rfl
  | cons b s ih => rw [List.map_cons, List.map_cons, lookup_invSbox_lookup_sbox, ih]

/-! ## Rows -/

theorem invShiftRows_shiftRows (s : Bytes) : invShiftRows (shiftRows s) = s := by
  unfold shiftRows
  split
  · rfl
  · rename_i hshape
    unfold invShiftRows
    split
    · exact absurd rfl (hshape _ _ _ _ _ _ _ _ _ _ _ _ _ _ _ _)
    · rfl

theorem length_shiftRows (s : Bytes) : (shiftRows s).length = s.length := by
  unfold shiftRows
  split
  · rfl
  · rfl

/-! ## Columns -/

theorem top_bit (b : UInt8) : b &&& 0x80 = 0 ∨ b &&& 0x80 = 0x80 := by
  refine forall_byte (P := fun b => b &&& 0x80 = 0 ∨ b &&& 0x80 = 0x80) ?_ b
  decide +kernel

/-- The byte by which doubling reduces. -/
def carry (b : UInt8) : UInt8 := if b &&& 0x80 = 0 then 0 else 0x1b

theorem carry_xor (a b : UInt8) : carry (a ^^^ b) = carry a ^^^ carry b := by
  have hand : (a ^^^ b) &&& 0x80 = (a &&& 0x80) ^^^ (b &&& 0x80) := by
    apply UInt8.toNat_inj.mp
    rw [UInt8.toNat_and, UInt8.toNat_xor, UInt8.toNat_xor, UInt8.toNat_and, UInt8.toNat_and]
    exact Nat.and_xor_distrib_right
  unfold carry
  rw [hand]
  rcases top_bit a with ha | ha
  · rw [ha, UInt8.zero_xor, if_pos rfl, UInt8.zero_xor]
  · rcases top_bit b with hb | hb
    · rw [ha, hb]
      rfl
    · rw [ha, hb]
      rfl

theorem double_xor (a b : UInt8) : double (a ^^^ b) = double a ^^^ double b := by
  have hshift : (a ^^^ b) <<< 1 = a <<< 1 ^^^ b <<< 1 := UInt8.shiftLeft_xor
  show (a ^^^ b) <<< 1 ^^^ carry (a ^^^ b) = (a <<< 1 ^^^ carry a) ^^^ (b <<< 1 ^^^ carry b)
  rw [hshift, carry_xor]
  simp only [UInt8.xor_assoc, xor_left_comm]

/-- The first byte of a mixed column; the others are those of the column rotated. -/
def mixByte (a b c d : UInt8) : UInt8 := a ^^^ (a ^^^ b ^^^ c ^^^ d) ^^^ double (a ^^^ b)

/-- The first byte of a column after `invMixStep`. -/
def stepByte (a c : UInt8) : UInt8 := a ^^^ double (double (a ^^^ c))

theorem mixColumns_cons (a b c d : UInt8) (r : Bytes) :
    mixColumns (a :: b :: c :: d :: r) =
      mixByte a b c d :: mixByte b c d a :: mixByte c d a b :: mixByte d a b c :: mixColumns r := by
  simp only [mixColumns, mixByte, UInt8.xor_assoc, UInt8.xor_comm, xor_left_comm]

theorem invMixStep_cons (a b c d : UInt8) (r : Bytes) :
    invMixStep (a :: b :: c :: d :: r) =
      stepByte a c :: stepByte b d :: stepByte c a :: stepByte d b :: invMixStep r := by
  rw [invMixStep, stepByte, stepByte, stepByte, stepByte, UInt8.xor_comm c a, UInt8.xor_comm d b]

/-- Mixing keeps the sum of opposite bytes up to the doubled sum of the column. -/
theorem mixByte_xor_opposite (a b c d : UInt8) :
    mixByte a b c d ^^^ mixByte c d a b = a ^^^ c ^^^ double (a ^^^ b ^^^ c ^^^ d) := by
  simp only [mixByte, double_xor, UInt8.xor_assoc, UInt8.xor_comm, xor_left_comm,
    xor_cancel_left]

theorem mixByte_xor_next (a b c d : UInt8) :
    mixByte a b c d ^^^ mixByte b c d a = a ^^^ b ^^^ double (a ^^^ c) := by
  simp only [mixByte, double_xor, UInt8.xor_assoc, UInt8.xor_comm, xor_left_comm,
    xor_cancel_left]

/-- A byte of a mixed column comes back when the column goes through the step and is mixed again. -/
theorem mixByte_stepByte {a b c d a' b' c' d' : UInt8} (ha : a' = mixByte a b c d)
    (hb : b' = mixByte b c d a) (hc : c' = mixByte c d a b) (hd : d' = mixByte d a b c) :
    mixByte (stepByte a' c') (stepByte b' d') (stepByte c' a') (stepByte d' b') = a := by
  have hrotate : b ^^^ c ^^^ d ^^^ a = a ^^^ b ^^^ c ^^^ d := by
    rw [UInt8.xor_comm, UInt8.xor_assoc, UInt8.xor_assoc, UInt8.xor_assoc]
  have hac : a' ^^^ c' = a ^^^ c ^^^ double (a ^^^ b ^^^ c ^^^ d) := by
    rw [ha, hc, mixByte_xor_opposite]
  have hbd : b' ^^^ d' = b ^^^ d ^^^ double (a ^^^ b ^^^ c ^^^ d) := by
    rw [hb, hd, mixByte_xor_opposite, hrotate]
  have hab : a' ^^^ b' = a ^^^ b ^^^ double (a ^^^ c) := by
    rw [ha, hb, mixByte_xor_next]
  have hsum : stepByte a' c' ^^^ stepByte b' d' ^^^ stepByte c' a' ^^^ stepByte d' b' =
      a ^^^ b ^^^ c ^^^ d := by
    calc stepByte a' c' ^^^ stepByte b' d' ^^^ stepByte c' a' ^^^ stepByte d' b'
        = (a' ^^^ c') ^^^ (b' ^^^ d') := by
          simp only [stepByte, UInt8.xor_assoc, UInt8.xor_comm, xor_left_comm, UInt8.xor_self,
            UInt8.xor_zero]
      _ = a ^^^ b ^^^ c ^^^ d := by
          rw [hac, hbd]
          simp only [UInt8.xor_assoc, UInt8.xor_comm, xor_left_comm, UInt8.xor_self, UInt8.xor_zero]
  have hnext : stepByte a' c' ^^^ stepByte b' d' =
      a ^^^ b ^^^ double (a ^^^ c) ^^^ double (double (a ^^^ b ^^^ c ^^^ d)) := by
    calc stepByte a' c' ^^^ stepByte b' d'
        = (a' ^^^ b') ^^^ double (double ((a' ^^^ c') ^^^ (b' ^^^ d'))) := by
          rw [double_xor (a' ^^^ c'), double_xor (double _)]
          simp only [stepByte, UInt8.xor_assoc, xor_left_comm]
      _ = a ^^^ b ^^^ double (a ^^^ c) ^^^ double (double (a ^^^ b ^^^ c ^^^ d)) := by
          rw [hab, hac, hbd]
          simp only [UInt8.xor_assoc, UInt8.xor_comm, xor_left_comm, UInt8.xor_self, UInt8.xor_zero]
  have hfirst : stepByte a' c' = a ^^^ (a ^^^ b ^^^ c ^^^ d) ^^^ double (a ^^^ b) ^^^
      (double (double (a ^^^ c)) ^^^ double (double (double (a ^^^ b ^^^ c ^^^ d)))) := by
    rw [stepByte, hac, ha, mixByte, double_xor (a ^^^ c), double_xor (double (a ^^^ c))]
  calc mixByte (stepByte a' c') (stepByte b' d') (stepByte c' a') (stepByte d' b')
      = stepByte a' c' ^^^ (a ^^^ b ^^^ c ^^^ d) ^^^ double (a ^^^ b ^^^ double (a ^^^ c) ^^^
          double (double (a ^^^ b ^^^ c ^^^ d))) := by
        rw [mixByte, hsum, hnext]
    _ = a := by
        rw [hfirst, double_xor (a ^^^ b ^^^ double (a ^^^ c)), double_xor (a ^^^ b)]
        generalize double (double (double (a ^^^ b ^^^ c ^^^ d))) = x
        generalize double (double (a ^^^ c)) = y
        generalize double (a ^^^ b) = z
        simp only [UInt8.xor_comm, xor_left_comm, xor_cancel_left, UInt8.xor_self, UInt8.xor_zero]

theorem exists_column {columns : Nat} {s : Bytes} (h : s.length = (columns + 1) * 4) :
    ∃ a b c d r, s = a :: b :: c :: d :: r ∧ r.length = columns * 4 := by
  match s with
  | [] | [_] | [_, _] | [_, _, _] =>
      simp only [List.length_cons, List.length_nil] at h
      omega
  | a :: b :: c :: d :: r =>
      simp only [List.length_cons] at h
      exact ⟨a, b, c, d, r, rfl, by omega⟩

theorem invMixColumns_mixColumns {columns : Nat} {s : Bytes} (h : s.length = columns * 4) :
    invMixColumns (mixColumns s) = s := by
  induction columns generalizing s with
  | zero =>
      rw [Nat.zero_mul, List.length_eq_zero_iff] at h
      rw [h]
      rfl
  | succ columns ih =>
      obtain ⟨a, b, c, d, r, rfl, hr⟩ := exists_column h
      have hrest : mixColumns (invMixStep (mixColumns r)) = r := ih hr
      rw [invMixColumns, mixColumns_cons, invMixStep_cons, mixColumns_cons, hrest,
        mixByte_stepByte rfl rfl rfl rfl, mixByte_stepByte rfl rfl rfl rfl,
        mixByte_stepByte rfl rfl rfl rfl, mixByte_stepByte rfl rfl rfl rfl]

theorem length_mixColumns {columns : Nat} {s : Bytes} (h : s.length = columns * 4) :
    (mixColumns s).length = s.length := by
  induction columns generalizing s with
  | zero =>
      rw [Nat.zero_mul, List.length_eq_zero_iff] at h
      rw [h]
      rfl
  | succ columns ih =>
      obtain ⟨a, b, c, d, r, rfl, hr⟩ := exists_column h
      rw [mixColumns_cons]
      simp only [List.length_cons, ih hr]

/-! ## Rounds -/

theorem length_subRows {s : Bytes} (hs : s.length = 16) :
    (shiftRows (s.map (lookup sbox))).length = 4 * 4 := by
  rw [length_shiftRows, List.length_map, hs]

theorem length_mixedRows {s : Bytes} (hs : s.length = 16) :
    (mixColumns (shiftRows (s.map (lookup sbox)))).length = 16 := by
  rw [length_mixColumns (length_subRows hs), length_subRows hs]

theorem length_xor_key {s key : Bytes} (hs : s.length = 16) (hkey : key.length = 16) :
    (Bytes.xor s key).length = 16 := by
  rw [Bytes.length_xor, hs, hkey, Nat.min_self]

theorem xor_key_xor_key {s key : Bytes} (hs : s.length = 16) (hkey : key.length = 16) :
    Bytes.xor (Bytes.xor s key) key = s :=
  Bytes.xor_xor (Nat.le_of_eq (hs.trans hkey.symm))

/-- Under keys of 16 bytes, every round takes a block to a block. -/
theorem length_encryptRounds {keys : List Bytes} (hkeys : ∀ k ∈ keys, k.length = 16) {s : Bytes}
    (hs : s.length = 16) : (encryptRounds keys s).length = 16 := by
  induction keys generalizing s with
  | nil => exact hs
  | cons key keys ih =>
      rw [List.forall_mem_cons] at hkeys
      cases keys with
      | nil => exact length_xor_key (length_subRows hs) hkeys.1
      | cons key' keys => exact ih hkeys.2 (length_xor_key (length_mixedRows hs) hkeys.1)

theorem length_encryptBlock {keys : List Bytes} (hkeys : ∀ k ∈ keys, k.length = 16)
    {block : Bytes} (hblock : block.length = 16) : (encryptBlock keys block).length = 16 := by
  cases keys with
  | nil => exact hblock
  | cons key keys =>
      rw [List.forall_mem_cons] at hkeys
      exact length_encryptRounds hkeys.2 (length_xor_key hblock hkeys.1)

/-- Undoing the rounds with `keys` leaves the state at the byte substitution of the first of them,
with the keys before it, in reverse order, still to come. -/
theorem decryptBlock_encryptRounds {keys : List Bytes} (hkeys : ∀ k ∈ keys, k.length = 16)
    (hne : keys ≠ []) {before : List Bytes} (hbefore : before ≠ []) {s : Bytes}
    (hs : s.length = 16) :
    decryptBlock (before.reverse ++ keys) (encryptRounds keys s) =
      decryptRounds before (shiftRows (s.map (lookup sbox))) := by
  induction keys generalizing before s with
  | nil => exact absurd rfl hne
  | cons key keys ih =>
      rw [List.forall_mem_cons] at hkeys
      cases keys with
      | nil =>
          rw [decryptBlock, List.reverse_append, List.reverse_reverse]
          show decryptRounds before (Bytes.xor (Bytes.xor _ key) key) = _
          rw [xor_key_xor_key (length_subRows hs) hkeys.1]
      | cons key' keys =>
          obtain ⟨k, before, rfl⟩ := List.exists_cons_of_ne_nil hbefore
          have hmixed := length_mixedRows hs
          have hundo := ih hkeys.2 (List.cons_ne_nil _ _) (List.cons_ne_nil key (k :: before))
            (length_xor_key hmixed hkeys.1)
          have hsplit : (k :: before).reverse ++ key :: key' :: keys =
              (key :: k :: before).reverse ++ key' :: keys := by
            rw [@List.reverse_cons _ key, List.append_assoc, List.singleton_append]
          rw [hsplit]
          refine hundo.trans ?_
          rw [decryptRounds, invShiftRows_shiftRows, map_invSbox_map_sbox,
            xor_key_xor_key hmixed hkeys.1, invMixColumns_mixColumns (length_subRows hs)]
          exact List.cons_ne_nil _ _

theorem decryptBlock_encryptBlock {keys : List Bytes} (hkeys : ∀ k ∈ keys, k.length = 16)
    {block : Bytes} (hblock : block.length = 16) :
    decryptBlock keys (encryptBlock keys block) = block := by
  cases keys with
  | nil => rfl
  | cons key keys =>
      rw [List.forall_mem_cons] at hkeys
      cases keys with
      | nil => exact xor_key_xor_key hblock hkeys.1
      | cons key' keys =>
          have hundo := decryptBlock_encryptRounds hkeys.2 (List.cons_ne_nil _ _)
            (List.cons_ne_nil key []) (length_xor_key hblock hkeys.1)
          refine hundo.trans ?_
          rw [decryptRounds, invShiftRows_shiftRows, map_invSbox_map_sbox,
            xor_key_xor_key hblock hkeys.1]

/-! ## Key schedule -/

theorem length_rotWord (word : Bytes) : (rotWord word).length = word.length := by
  cases word with
  | nil => rfl
  | cons b r => exact List.length_append

theorem length_scheduleWord (keyWords i : Nat) (rcon : UInt8) {before : Bytes}
    (hbefore : before.length = 4) : (scheduleWord keyWords i rcon before).length = 4 := by
  unfold scheduleWord
  split
  · rw [Bytes.length_xor, List.length_map, length_rotWord, hbefore]
    rfl
  · split
    · rw [List.length_map, hbefore]
    · exact hbefore

/-- The schedule grows by words of four bytes, as long as it reaches back by one key length. -/
theorem extend_words {keyWords : Nat} (hpos : 0 < keyWords) (count i : Nat) (rcon : UInt8)
    (words : List Bytes) (hlen : keyWords ≤ words.length) (hwords : ∀ w ∈ words, w.length = 4) :
    (extend keyWords count i rcon words).length = words.length + count ∧
      ∀ w ∈ extend keyWords count i rcon words, w.length = 4 := by
  induction count generalizing i rcon words with
  | zero => exact ⟨rfl, hwords⟩
  | succ count ih =>
      have hfirst : (words.headD []).length = 4 := by
        cases words with
        | nil => exact absurd hlen (Nat.not_le_of_lt hpos)
        | cons w words => exact hwords w List.mem_cons_self
      have hback : (words.getD (keyWords - 1) []).length = 4 := by
        have hlt : keyWords - 1 < words.length := by omega
        rw [List.getD_eq_getElem?_getD, List.getElem?_eq_getElem hlt]
        exact hwords _ (List.getElem_mem hlt)
      have hnext : (Bytes.xor (words.getD (keyWords - 1) [])
          (scheduleWord keyWords i rcon (words.headD []))).length = 4 := by
        rw [Bytes.length_xor, hback, length_scheduleWord _ _ _ hfirst, Nat.min_self]
      obtain ⟨hlength, hall⟩ := ih (i + 1) (if i % keyWords = 0 then double rcon else rcon)
        (Bytes.xor (words.getD (keyWords - 1) [])
          (scheduleWord keyWords i rcon (words.headD [])) :: words)
        (Nat.le_succ_of_le hlen) (List.forall_mem_cons.mpr ⟨hnext, hwords⟩)
      rw [extend]
      exact ⟨by rw [hlength, List.length_cons, Nat.add_assoc, Nat.add_comm 1], hall⟩

theorem length_of_mem_roundKeys {key : Bytes} {keyWords : Nat} (hpos : 0 < keyWords)
    (hkey : key.length = keyWords * 4) : ∀ k ∈ roundKeys key, k.length = 16 := by
  have hwords : key.length / 4 = keyWords := by omega
  obtain ⟨hcount, hfour⟩ := Bytes.chunks_of_length (by decide) hkey
  have hlen : keyWords ≤ (Bytes.chunks 4 key).reverse.length :=
    Nat.le_of_eq (by rw [List.length_reverse, hcount])
  have hall := extend_words hpos (4 * (keyWords + 7) - keyWords) keyWords 1 _ hlen
    (fun w hw => hfour w (List.mem_reverse.mp hw))
  have hflatten := Bytes.length_flatten_of_length
    (fun w hw => hall.2 w (List.mem_reverse.mp hw))
  rw [List.length_reverse, hall.1, List.length_reverse, hcount] at hflatten
  have htotal : (keyWords + (4 * (keyWords + 7) - keyWords)) * 4 = (keyWords + 7) * 16 := by omega
  rw [htotal] at hflatten
  unfold roundKeys
  rw [hwords]
  exact (Bytes.chunks_of_length (by decide) hflatten).2

end Firmware.Crypto.Aes
