import Firmware.Bytes
import Mathlib.Algebra.Group.Nat.Defs

/-!
# Codings of numbers and readers

Little-endian coding in `w` bytes and its inverse: `toNatLE_ofNatLE` reads back what was written,
modulo `256 ^ w`, and `ofNatLE_toNatLE` writes back what was read.  Big-endian coding is the same on
the reversed string.

Every reader of `Firmware.Bytes` then gets one equivalence, `readU16_eq_some_iff` and its siblings:
a reader yields a value and a rest exactly when the input is the coded value followed by that rest.
A format that is read with these and written with the codings needs no positions.

Two sections are about what the ciphers do to strings: adding a mask, which undoes itself, and
cutting into pieces of one length, which `flatten` undoes.

The last section is about patches.  A place in a string is given by what stands before it: a string
is written as `a ++ bs ++ b`, and a patch of `bs` leaves `a` and `b` alone.
-/

namespace Firmware.Bytes

/-! ## Little-endian numbers -/

theorem toNatLE_lt (bs : Bytes) : toNatLE bs < 256 ^ bs.length := by
  induction bs with
  | nil => exact Nat.one_pos
  | cons b bs ih =>
      have hb : b.toNat < 256 := b.toNat_lt
      rw [toNatLE, List.length_cons, Nat.pow_succ]
      omega

theorem toNatLE_ofNatLE (w n : Nat) : toNatLE (ofNatLE w n) = n % 256 ^ w := by
  induction w generalizing n with
  | zero => exact (Nat.mod_one n).symm
  | succ w ih =>
      rw [ofNatLE, toNatLE, ih, Nat.pow_succ, Nat.mul_comm (256 ^ w) 256, Nat.mod_mul]
      simp

theorem toNatLE_ofNatLE_of_lt {w n : Nat} (h : n < 256 ^ w) : toNatLE (ofNatLE w n) = n := by
  rw [toNatLE_ofNatLE, Nat.mod_eq_of_lt h]

theorem ofNatLE_toNatLE (bs : Bytes) : ofNatLE bs.length (toNatLE bs) = bs := by
  induction bs with
  | nil => rfl
  | cons b bs ih =>
      have hb : b.toNat < 256 := b.toNat_lt
      have hhead : UInt8.ofNat (b.toNat + 256 * toNatLE bs) = b := by
        apply UInt8.toNat_inj.mp
        simp
      have htail : (b.toNat + 256 * toNatLE bs) / 256 = toNatLE bs := by omega
      rw [toNatLE, List.length_cons, ofNatLE, hhead, htail, ih]

/-! ## Big-endian numbers -/

theorem toNatBE_append_singleton (bs : Bytes) (b : UInt8) :
    toNatBE (bs ++ [b]) = 256 * toNatBE bs + b.toNat := by
  simp [toNatBE]

theorem toNatBE_reverse (bs : Bytes) : toNatBE bs.reverse = toNatLE bs := by
  induction bs with
  | nil => rfl
  | cons b bs ih =>
      rw [List.reverse_cons, toNatBE_append_singleton, ih, toNatLE, Nat.add_comm]

theorem toNatBE_lt (bs : Bytes) : toNatBE bs < 256 ^ bs.length := by
  have h := toNatLE_lt bs.reverse
  rwa [← toNatBE_reverse, List.reverse_reverse, List.length_reverse] at h

theorem toNatBE_ofNatBE (w n : Nat) : toNatBE (ofNatBE w n) = n % 256 ^ w := by
  rw [ofNatBE, toNatBE_reverse, toNatLE_ofNatLE]

theorem toNatBE_ofNatBE_of_lt {w n : Nat} (h : n < 256 ^ w) : toNatBE (ofNatBE w n) = n := by
  rw [toNatBE_ofNatBE, Nat.mod_eq_of_lt h]

theorem ofNatBE_toNatBE (bs : Bytes) : ofNatBE bs.length (toNatBE bs) = bs := by
  have h := ofNatLE_toNatLE bs.reverse
  rw [List.length_reverse, ← toNatBE_reverse, List.reverse_reverse] at h
  rw [ofNatBE, h, List.reverse_reverse]

theorem ofNatLE_succ (w n : Nat) :
    ofNatLE (w + 1) n = ofNatLE w n ++ [UInt8.ofNat (n / 256 ^ w)] := by
  induction w generalizing n with
  | zero =>
      rw [Nat.pow_zero, Nat.div_one]
      rfl
  | succ w ih =>
      rw [ofNatLE, ih, Nat.div_div_eq_div_mul, Nat.pow_succ, Nat.mul_comm 256]
      rfl

/-- The most significant digit comes first. -/
theorem ofNatBE_succ (w n : Nat) :
    ofNatBE (w + 1) n = UInt8.ofNat (n / 256 ^ w) :: ofNatBE w n := by
  rw [ofNatBE, ofNatLE_succ, List.reverse_append]
  rfl

theorem foldl_toNatBE (a : Nat) (bs : Bytes) :
    bs.foldl (fun n b => 256 * n + b.toNat) a = a * 256 ^ bs.length + toNatBE bs := by
  induction bs generalizing a with
  | nil => exact (Nat.mul_one a).symm
  | cons b bs ih =>
      rw [toNatBE, List.foldl_cons, List.foldl_cons, ih, ih (256 * 0 + b.toNat), List.length_cons,
        Nat.pow_succ, Nat.add_mul, Nat.mul_zero, Nat.zero_add, Nat.mul_comm 256 a, Nat.mul_assoc,
        Nat.mul_comm 256 (256 ^ _), Nat.add_assoc]

/-- The first byte counts for as many digits as follow it. -/
theorem toNatBE_cons (b : UInt8) (bs : Bytes) :
    toNatBE (b :: bs) = b.toNat * 256 ^ bs.length + toNatBE bs := by
  rw [toNatBE, List.foldl_cons, foldl_toNatBE, Nat.mul_zero, Nat.zero_add]

theorem toNatBE_zeros_append (n : Nat) (bs : Bytes) : toNatBE (zeros n ++ bs) = toNatBE bs := by
  induction n with
  | zero => rfl
  | succ n ih => exact ih

/-! ## Words -/

theorem toNatLE_ofU16 (x : UInt16) : toNatLE (ofU16 x) = x.toNat :=
  toNatLE_ofNatLE_of_lt x.toNat_lt

theorem toNatLE_ofU32 (x : UInt32) : toNatLE (ofU32 x) = x.toNat :=
  toNatLE_ofNatLE_of_lt x.toNat_lt

theorem eq_ofU16_iff {bs : Bytes} {x : UInt16} :
    bs = ofU16 x ↔ bs.length = 2 ∧ UInt16.ofNat (toNatLE bs) = x := by
  constructor
  · rintro rfl
    exact ⟨length_ofU16 x, by rw [toNatLE_ofU16, UInt16.ofNat_toNat]⟩
  · rintro ⟨hlen, rfl⟩
    have hlt := toNatLE_lt bs
    rw [hlen] at hlt
    have hx : (UInt16.ofNat (toNatLE bs)).toNat = toNatLE bs := UInt16.toNat_ofNat_of_lt' hlt
    rw [ofU16, hx, ← hlen, ofNatLE_toNatLE]

theorem eq_ofU32_iff {bs : Bytes} {x : UInt32} :
    bs = ofU32 x ↔ bs.length = 4 ∧ UInt32.ofNat (toNatLE bs) = x := by
  constructor
  · rintro rfl
    exact ⟨length_ofU32 x, by rw [toNatLE_ofU32, UInt32.ofNat_toNat]⟩
  · rintro ⟨hlen, rfl⟩
    have hlt := toNatLE_lt bs
    rw [hlen] at hlt
    have hx : (UInt32.ofNat (toNatLE bs)).toNat = toNatLE bs := UInt32.toNat_ofNat_of_lt' hlt
    rw [ofU32, hx, ← hlen, ofNatLE_toNatLE]

/-! ## Readers -/

theorem splitAt?_of_le {n : Nat} {bs : Bytes} (h : n ≤ bs.length) :
    splitAt? n bs = some (bs.take n, bs.drop n) :=
  splitAt?_eq_some_iff.mpr ⟨(List.take_append_drop n bs).symm, List.length_take_of_le h⟩

theorem readU8_eq_some_iff {bs r : Bytes} {b : UInt8} :
    readU8 bs = some (b, r) ↔ bs = b :: r := by
  cases bs with
  | nil => simp [readU8]
  | cons c bs => simp [readU8]

theorem readLE_eq_some_iff {w n : Nat} {bs r : Bytes} :
    readLE w bs = some (n, r) ↔ ∃ d, bs = d ++ r ∧ d.length = w ∧ toNatLE d = n := by
  rw [readLE, Option.map_eq_some_iff]
  constructor
  · rintro ⟨⟨d, r'⟩, hs, h⟩
    obtain ⟨rfl, rfl⟩ := Prod.mk.inj h
    obtain ⟨rfl, rfl⟩ := splitAt?_eq_some_iff.mp hs
    exact ⟨d, rfl, rfl, rfl⟩
  · rintro ⟨d, rfl, rfl, rfl⟩
    exact ⟨(d, r), splitAt?_eq_some_iff.mpr ⟨rfl, rfl⟩, rfl⟩

theorem readU16_eq_some_iff {bs r : Bytes} {x : UInt16} :
    readU16 bs = some (x, r) ↔ bs = ofU16 x ++ r := by
  rw [readU16, Option.map_eq_some_iff]
  constructor
  · rintro ⟨⟨n, r'⟩, hs, h⟩
    obtain ⟨rfl, rfl⟩ := Prod.mk.inj h
    obtain ⟨d, rfl, hlen, rfl⟩ := readLE_eq_some_iff.mp hs
    rw [← eq_ofU16_iff.mpr ⟨hlen, rfl⟩]
  · rintro rfl
    exact ⟨(x.toNat, r), readLE_eq_some_iff.mpr ⟨_, rfl, length_ofU16 x, toNatLE_ofU16 x⟩,
      congrArg (·, r) UInt16.ofNat_toNat⟩

theorem readU32_eq_some_iff {bs r : Bytes} {x : UInt32} :
    readU32 bs = some (x, r) ↔ bs = ofU32 x ++ r := by
  rw [readU32, Option.map_eq_some_iff]
  constructor
  · rintro ⟨⟨n, r'⟩, hs, h⟩
    obtain ⟨rfl, rfl⟩ := Prod.mk.inj h
    obtain ⟨d, rfl, hlen, rfl⟩ := readLE_eq_some_iff.mp hs
    rw [← eq_ofU32_iff.mpr ⟨hlen, rfl⟩]
  · rintro rfl
    exact ⟨(x.toNat, r), readLE_eq_some_iff.mpr ⟨_, rfl, length_ofU32 x, toNatLE_ofU32 x⟩,
      congrArg (·, r) UInt32.ofNat_toNat⟩

/-! ## Exclusive or -/

theorem length_xor (a b : Bytes) : (xor a b).length = min a.length b.length :=
  List.length_zipWith

theorem length_xor_of_le {a b : Bytes} (h : a.length ≤ b.length) : (xor a b).length = a.length := by
  rw [length_xor, Nat.min_eq_left h]

/-- Adding a mask twice takes it away again. -/
theorem xor_xor {a b : Bytes} (h : a.length ≤ b.length) : xor (xor a b) b = a := by
  induction a generalizing b with
  | nil => rfl
  | cons x a ih =>
      cases b with
      | nil => exact absurd h (Nat.not_succ_le_zero _)
      | cons y b =>
          have hhead : x ^^^ y ^^^ y = x := by rw [UInt8.xor_assoc, UInt8.xor_self, UInt8.xor_zero]
          have htail : xor (xor a b) b = a := ih (Nat.le_of_succ_le_succ h)
          show (x ^^^ y ^^^ y) :: xor (xor a b) b = x :: a
          rw [hhead, htail]

theorem xor_append {a b c d : Bytes} (h : a.length = c.length) :
    xor (a ++ b) (c ++ d) = xor a c ++ xor b d :=
  List.zipWith_append h

/-- A mask is only looked at as far as the string goes. -/
theorem xor_append_right {a c : Bytes} (d : Bytes) (h : a.length ≤ c.length) :
    xor a (c ++ d) = xor a c := by
  induction a generalizing c with
  | nil => rfl
  | cons x a ih =>
      cases c with
      | nil => exact absurd h (Nat.not_succ_le_zero _)
      | cons y c => exact congrArg ((x ^^^ y) :: ·) (ih (Nat.le_of_succ_le_succ h))

/-! ## Pieces -/

theorem chunksUpTo_nil (n fuel : Nat) : chunksUpTo n fuel [] = [] := by
  cases fuel with
  | zero => rfl
  | succ fuel => rfl

@[simp] theorem chunks_nil (n : Nat) : chunks n [] = [] := chunksUpTo_nil n _

/-- Fuel beyond the number of pieces changes nothing. -/
theorem chunksUpTo_eq {n fuel fuel' : Nat} {bs : Bytes} (h : bs.length ≤ fuel * n)
    (h' : bs.length ≤ fuel' * n) : chunksUpTo n fuel bs = chunksUpTo n fuel' bs := by
  induction fuel generalizing fuel' bs with
  | zero =>
      rw [Nat.zero_mul, Nat.le_zero, List.length_eq_zero_iff] at h
      rw [h, chunksUpTo_nil, chunksUpTo_nil]
  | succ fuel ih =>
      cases bs with
      | nil => rw [chunksUpTo_nil, chunksUpTo_nil]
      | cons b bs =>
          cases fuel' with
          | zero =>
              rw [Nat.zero_mul] at h'
              exact absurd h' (Nat.not_succ_le_zero _)
          | succ fuel' =>
              rw [Nat.succ_mul] at h h'
              rw [chunksUpTo, chunksUpTo, ih]
              · rw [List.length_drop]
                omega
              · rw [List.length_drop]
                omega

/-- The first piece and the pieces behind it. -/
theorem chunks_eq_cons {n : Nat} {bs : Bytes} (hn : 0 < n) (hbs : bs ≠ []) :
    chunks n bs = bs.take n :: chunks n (bs.drop n) := by
  cases bs with
  | nil => exact absurd rfl hbs
  | cons b bs =>
      rw [chunks, chunksUpTo, chunks]
      have hrest := Nat.lt_mul_div_succ ((b :: bs).drop n).length hn
      have hall := Nat.lt_mul_div_succ (b :: bs).length hn
      rw [Nat.mul_succ, Nat.mul_comm] at hall
      rw [Nat.mul_comm] at hrest
      rw [chunksUpTo_eq _ (Nat.le_of_lt hrest)]
      rw [List.length_drop]
      omega

theorem chunks_append {n : Nat} {a : Bytes} (b : Bytes) (hn : 0 < n) (ha : a.length = n) :
    chunks n (a ++ b) = a :: chunks n b := by
  have hne : a ++ b ≠ [] := by
    intro h
    rw [List.append_eq_nil_iff] at h
    rw [h.1] at ha
    exact Nat.ne_of_lt hn ha
  rw [chunks_eq_cons hn hne, ← ha, List.take_left, List.drop_left]

/-- Cutting off one piece after the other comes to an end. -/
theorem chunks_induction {n : Nat} {P : Bytes → Prop} (hn : 0 < n) (nil : P [])
    (step : ∀ bs, bs ≠ [] → P (bs.drop n) → P bs) (bs : Bytes) : P bs := by
  induction hlength : bs.length using Nat.strongRecOn generalizing bs with
  | ind length ih =>
      by_cases hbs : bs = []
      · rw [hbs]
        exact nil
      · have hpos := List.length_pos_iff.mpr hbs
        refine step bs hbs (ih _ ?_ _ rfl)
        rw [List.length_drop]
        omega

theorem flatten_chunks {n : Nat} (hn : 0 < n) (bs : Bytes) : (chunks n bs).flatten = bs := by
  induction bs using chunks_induction hn with
  | nil => rw [chunks_nil, List.flatten_nil]
  | step bs hbs ih => rw [chunks_eq_cons hn hbs, List.flatten_cons, ih, List.take_append_drop]

/-- Pieces of full length are found again in the string that they make up. -/
theorem chunks_flatten {n : Nat} {pieces : List Bytes} (hn : 0 < n)
    (h : ∀ p ∈ pieces, p.length = n) : chunks n pieces.flatten = pieces := by
  induction pieces with
  | nil => exact chunks_nil n
  | cons p pieces ih =>
      rw [List.forall_mem_cons] at h
      rw [List.flatten_cons, chunks_append _ hn h.1, ih h.2]

/-- A string whose length is a multiple of `n` consists of pieces of full length. -/
theorem exists_eq_flatten {n count : Nat} {bs : Bytes} (h : bs.length = count * n) :
    ∃ pieces : List Bytes, pieces.length = count ∧ (∀ p ∈ pieces, p.length = n) ∧
      pieces.flatten = bs := by
  induction count generalizing bs with
  | zero =>
      rw [Nat.zero_mul, List.length_eq_zero_iff] at h
      exact ⟨[], rfl, fun _ hp => absurd hp List.not_mem_nil, h.symm⟩
  | succ count ih =>
      rw [Nat.succ_mul] at h
      have hdrop : (bs.drop n).length = count * n := by
        rw [List.length_drop, h, Nat.add_sub_cancel]
      have htake : (bs.take n).length = n := by
        rw [List.length_take, h]
        exact Nat.min_eq_left (Nat.le_add_left _ _)
      obtain ⟨pieces, hlength, hall, hflatten⟩ := ih hdrop
      refine ⟨bs.take n :: pieces, congrArg Nat.succ hlength, ?_, ?_⟩
      · exact List.forall_mem_cons.mpr ⟨htake, hall⟩
      · rw [List.flatten_cons, hflatten, List.take_append_drop]

theorem chunks_of_length {n count : Nat} {bs : Bytes} (hn : 0 < n) (h : bs.length = count * n) :
    (chunks n bs).length = count ∧ ∀ p ∈ chunks n bs, p.length = n := by
  obtain ⟨pieces, hlength, hall, rfl⟩ := exists_eq_flatten h
  rw [chunks_flatten hn hall]
  exact ⟨hlength, hall⟩

/-- The length of pieces that all have one length. -/
theorem length_flatten_of_length {n : Nat} {pieces : List Bytes}
    (h : ∀ p ∈ pieces, p.length = n) : pieces.flatten.length = pieces.length * n := by
  induction pieces with
  | nil => exact (Nat.zero_mul n).symm
  | cons p pieces ih =>
      rw [List.forall_mem_cons] at h
      rw [List.flatten_cons, List.length_append, h.1, ih h.2, List.length_cons, Nat.succ_mul,
        Nat.add_comm]

/-! ## Patches -/

@[simp] theorem length_zeros (n : Nat) : (zeros n).length = n := List.length_replicate

@[simp] theorem length_resize (n : Nat) (fill : UInt8) (bs : Bytes) :
    (resize n fill bs).length = n := by
  rw [resize, List.length_append, List.length_take, List.length_replicate]
  omega

theorem resize_append {n : Nat} {a : Bytes} (fill : UInt8) (b : Bytes) (h : a.length = n) :
    resize n fill (a ++ b) = a := by
  have hshort : n - (a ++ b).length = 0 := by
    rw [List.length_append, h]
    omega
  rw [resize, hshort, List.replicate_zero, List.append_nil, ← h, List.take_left]

theorem slice_append (a bs b : Bytes) :
    slice (a ++ bs ++ b) a.length (a.length + bs.length) = bs := by
  rw [slice, List.append_assoc, List.drop_left, Nat.add_sub_cancel_left, List.take_left]

theorem take_append_slice_append_drop (bs : Bytes) (start stop : Nat) (h : start ≤ stop) :
    bs.take start ++ slice bs start stop ++ bs.drop stop = bs := by
  have hdrop : (bs.drop start).drop (stop - start) = bs.drop stop := by
    rw [List.drop_drop, Nat.add_sub_cancel' h]
  rw [slice, List.append_assoc, ← hdrop, List.take_append_drop, List.take_append_drop]

theorem length_overwrite {bs patch : Bytes} {offset : Nat}
    (h : offset + patch.length ≤ bs.length) : (overwrite bs offset patch).length = bs.length := by
  simp only [overwrite, List.length_append, List.length_take, List.length_drop]
  omega

/-- Writing over a part in the middle. -/
theorem overwrite_append {old new : Bytes} (a b : Bytes) (h : new.length = old.length) :
    overwrite (a ++ old ++ b) a.length new = a ++ new ++ b := by
  have htake : (a ++ old ++ b).take a.length = a := by
    rw [List.append_assoc, List.take_left]
  have hdrop : (a ++ old ++ b).drop (a.length + old.length) = b := by
    rw [← List.length_append, List.drop_left]
  rw [overwrite, h, htake, hdrop]

/-- A patch inside a part in the middle changes that part only. -/
theorem overwrite_append_inside {bs patch : Bytes} {offset : Nat} (a b : Bytes)
    (h : offset + patch.length ≤ bs.length) :
    overwrite (a ++ bs ++ b) (a.length + offset) patch = a ++ overwrite bs offset patch ++ b := by
  have htake : (a ++ bs ++ b).take (a.length + offset) = a ++ bs.take offset := by
    rw [List.append_assoc, List.take_length_add_append, List.take_append_of_le_length (by omega)]
  have hdrop : (a ++ bs ++ b).drop (a.length + offset + patch.length) =
      bs.drop (offset + patch.length) ++ b := by
    rw [Nat.add_assoc, List.append_assoc, List.drop_length_add_append,
      List.drop_append_of_le_length h]
  rw [overwrite, htake, hdrop, overwrite]
  simp only [List.append_assoc]

/-- A patch changes nothing outside of its place. -/
theorem getElem?_overwrite_of_outside {bs patch : Bytes} {offset i : Nat}
    (h : offset + patch.length ≤ bs.length) (hi : i < offset ∨ offset + patch.length ≤ i) :
    (overwrite bs offset patch)[i]? = bs[i]? := by
  have hfront : (bs.take offset ++ patch).length = offset + patch.length := by
    rw [List.length_append, List.length_take]
    omega
  rcases hi with hi | hi
  · rw [overwrite, List.append_assoc, List.getElem?_append_left, List.getElem?_take_of_lt hi]
    rw [List.length_take]
    omega
  · rw [overwrite, List.getElem?_append_right (by omega), List.getElem?_drop, hfront,
      Nat.add_sub_cancel' hi]

end Firmware.Bytes
