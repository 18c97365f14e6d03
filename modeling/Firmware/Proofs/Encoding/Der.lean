import Firmware.Encoding.Der
import Firmware.Proofs.Bytes

/-!
# Reading what was written

`readElement_toBytes` and `elements?_flatMap_toBytes` : an element, and a sequence of them, are read
back from their encoding, as long as their tags may occur and their contents fit a length of four
bytes.  A whole encoding within `maxSize` leaves no other lengths, so `parse?_toBytes` and
`sequence?_sequence_of_size` ask for its size only.

The values are read back from their elements each by a lemma of its own.

`natural?_integer` : so is a number, whatever its size.  The writer takes one byte more than the
bits of the number fill completely, so the top bit is clear; and it takes no byte more than that,
so a zero byte in front means that the bit behind it is set.
-/

namespace Firmware.Der

/-! ## Lengths -/

/-- As many bytes as the writer takes hold the number. -/
theorem lt_pow_minimal (n : Nat) : n < 256 ^ (Nat.log2 n / 8 + 1) := by
  have hbits : Nat.log2 n + 1 ≤ 8 * (Nat.log2 n / 8 + 1) := by omega
  calc n < 2 ^ (Nat.log2 n + 1) := Nat.lt_log2_self
    _ ≤ 2 ^ (8 * (Nat.log2 n / 8 + 1)) := Nat.pow_le_pow_right (by decide) hbits
    _ = 256 ^ (Nat.log2 n / 8 + 1) := by rw [Nat.pow_mul]

theorem minimalBytes_of_ne_zero {n : Nat} (h : n ≠ 0) :
    (minimalBytes n).length = Nat.log2 n / 8 + 1 ∧ Bytes.toNatBE (minimalBytes n) = n := by
  unfold minimalBytes
  rw [if_neg h]
  exact ⟨Bytes.length_ofNatBE _ _, Bytes.toNatBE_ofNatBE_of_lt (lt_pow_minimal n)⟩

theorem readLength_lengthBytes {n : Nat} (h : n < 256 ^ 4) (r : Bytes) :
    readLength (lengthBytes n ++ r) = some (n, r) := by
  by_cases hshort : n < 128
  · have hn := UInt8.toNat_ofNat_of_lt' (Nat.lt_trans hshort (by decide))
    have hlt : UInt8.ofNat n < 0x80 := by
      rw [UInt8.lt_iff_toNat_lt, hn]
      exact hshort
    rw [lengthBytes, if_pos hshort, List.singleton_append, readLength, if_pos hlt, hn]
  · have hne : n ≠ 0 := by omega
    obtain ⟨hlength, hvalue⟩ := minimalBytes_of_ne_zero hne
    have hlog : Nat.log2 n < 32 := (Nat.log2_lt hne).mpr h
    have hcount : (UInt8.ofNat (128 + (minimalBytes n).length)).toNat =
        128 + (minimalBytes n).length := by
      apply UInt8.toNat_ofNat_of_lt'
      show _ < 256
      omega
    have hlong : lengthBytes n =
        UInt8.ofNat (128 + (minimalBytes n).length) :: minimalBytes n := by
      rw [lengthBytes, if_neg hshort]
    have hnotShort : ¬UInt8.ofNat (128 + (minimalBytes n).length) < 0x80 := by
      rw [UInt8.lt_iff_toNat_lt, hcount]
      exact Nat.not_lt_of_le (Nat.le_add_right 128 _)
    have hnotRefused : ¬(UInt8.ofNat (128 + (minimalBytes n).length) = 0x80 ∨
        0x84 < UInt8.ofNat (128 + (minimalBytes n).length)) := by
      rw [UInt8.lt_iff_toNat_lt, ← UInt8.toNat_inj, hcount]
      show ¬(128 + _ = 128 ∨ 132 < 128 + _)
      omega
    have hsplit : Bytes.splitAt? (128 + (minimalBytes n).length - 128) (minimalBytes n ++ r) =
        some (minimalBytes n, r) := by
      rw [Nat.add_sub_cancel_left]
      exact Bytes.splitAt?_eq_some_iff.mpr ⟨rfl, rfl⟩
    rw [hlong, List.cons_append, readLength, if_neg hnotShort, if_neg hnotRefused, hcount, hsplit]
    show (if lengthBytes (Bytes.toNatBE (minimalBytes n)) = _ then _ else none) = _
    rw [hvalue, if_pos hlong]

/-! ## Elements -/

/-- An element with a tag that may occur and a content that fits its length. -/
structure Element.Fits (e : Element) : Prop where
  tag : isTag e.tag = true
  length : e.content.length < 256 ^ 4

theorem toBytes_of_short {e : Element} (h : e.content.length < 128) :
    e.toBytes = e.tag :: UInt8.ofNat e.content.length :: e.content := by
  rw [Element.toBytes, lengthBytes, if_pos h]
  rfl

theorem length_lengthBytes_le {n : Nat} (h : n < 256 ^ 4) : (lengthBytes n).length ≤ 5 := by
  unfold lengthBytes
  split
  · exact Nat.succ_le_succ (Nat.zero_le 4)
  · have hne : n ≠ 0 := by omega
    have hlog : Nat.log2 n < 32 := (Nat.log2_lt hne).mpr h
    rw [List.length_cons, (minimalBytes_of_ne_zero hne).1]
    omega

theorem length_toBytes (e : Element) :
    e.toBytes.length = 1 + (lengthBytes e.content.length).length + e.content.length := by
  rw [Element.toBytes, List.length_append, List.length_cons, Nat.add_comm _ 1]

theorem length_content_lt (e : Element) : e.content.length < e.toBytes.length := by
  rw [length_toBytes]
  omega

/-- A tag and a length have six bytes at most. -/
theorem length_toBytes_le {e : Element} (h : e.content.length < 256 ^ 4) :
    e.toBytes.length ≤ e.content.length + 6 := by
  have hlength := length_lengthBytes_le h
  rw [length_toBytes]
  omega

theorem readElement_toBytes {e : Element} (h : e.Fits) (r : Bytes) :
    readElement (e.toBytes ++ r) = some (e, r) := by
  have hsplit : Bytes.splitAt? e.content.length (e.content ++ r) = some (e.content, r) :=
    Bytes.splitAt?_eq_some_iff.mpr ⟨rfl, rfl⟩
  rw [Element.toBytes, List.cons_append, List.cons_append, readElement, if_pos h.tag,
    List.append_assoc, readLength_lengthBytes h.length]
  show (Bytes.splitAt? e.content.length (e.content ++ r)).map _ = _
  rw [hsplit]
  rfl

/-- An element of limited size fits, and so does its content. -/
theorem Element.fits_of_size {e : Element} (htag : isTag e.tag = true)
    (hsize : e.toBytes.length ≤ maxSize) : e.Fits := by
  refine ⟨htag, Nat.lt_trans (length_content_lt e) (Nat.lt_of_le_of_lt hsize ?_)⟩
  decide

theorem parse?_toBytes {e : Element} (htag : isTag e.tag = true)
    (hsize : e.toBytes.length ≤ maxSize) : parse? e.toBytes = some e := by
  have hread := readElement_toBytes (Element.fits_of_size htag hsize) []
  rw [List.append_nil] at hread
  rw [parse?, if_pos hsize, hread]

theorem elements?_cons {e : Element} (h : e.Fits) (r : Bytes) :
    elements? (e.toBytes ++ r) = (elements? r).map (e :: ·) := by
  have hread := readElement_toBytes h r
  rw [Element.toBytes, List.cons_append, List.cons_append] at hread ⊢
  rw [elements?]
  split
  · rename_i hnone
    rw [hread] at hnone
    cases hnone
  · rename_i e' rest hsome
    obtain ⟨rfl, rfl⟩ := Prod.mk.inj (Option.some.inj (hread.symm.trans hsome))
    rfl

theorem elements?_flatMap_toBytes {es : List Element} (h : ∀ e ∈ es, e.Fits) :
    elements? (es.flatMap Element.toBytes) = some es := by
  induction es with
  | nil => rw [List.flatMap_nil, elements?]
  | cons e es ih =>
      rw [List.forall_mem_cons] at h
      rw [List.flatMap_cons, elements?_cons h.1, ih h.2]
      rfl

theorem sequence?_sequence {es : List Element} (h : ∀ e ∈ es, e.Fits) :
    (sequence es).sequence? = some es := by
  have hexpect : (sequence es).expect? sequenceTag = some (es.flatMap Element.toBytes) :=
    if_pos rfl
  unfold Element.sequence?
  rw [hexpect]
  exact elements?_flatMap_toBytes h

/-! ## What was read -/

/-- An element that was read has the tag that stands in front, and its content behind its length. -/
theorem spec_of_readElement {tag : UInt8} {r rest : Bytes} {e : Element}
    (h : readElement (tag :: r) = some (e, rest)) :
    e.tag = tag ∧ ∃ n, readLength r = some (n, e.content ++ rest) := by
  unfold readElement at h
  dsimp only at h
  split at h
  · obtain ⟨⟨n, r'⟩, hn, h⟩ := Option.bind_eq_some_iff.mp h
    obtain ⟨⟨content, rest'⟩, hsplit, h⟩ := Option.map_eq_some_iff.mp h
    obtain ⟨rfl, rfl⟩ := Prod.mk.inj h
    obtain ⟨rfl, -⟩ := Bytes.splitAt?_eq_some_iff.mp hsplit
    exact ⟨rfl, n, hn⟩
  · cases h

/-- A length of one byte is followed by the content. -/
theorem content_of_readElement {tag n : UInt8} {r rest : Bytes} {e : Element} (hn : n < 0x80)
    (h : readElement (tag :: n :: r) = some (e, rest)) : e.content ++ rest = r := by
  obtain ⟨-, m, hm⟩ := spec_of_readElement h
  rw [readLength, if_pos hn] at hm
  exact (Prod.mk.inj (Option.some.inj hm)).2.symm

theorem readElement_of_parse? {bs : Bytes} {e : Element} (h : parse? bs = some e) :
    readElement bs = some (e, []) := by
  unfold parse? at h
  split at h
  · split at h
    · rename_i hread
      obtain rfl := Option.some.inj h
      exact hread
    · cases h
  · cases h

theorem head_of_elements? {b : UInt8} {r : Bytes} {es : List Element}
    (h : elements? (b :: r) = some es) :
    ∃ e rest es', readElement (b :: r) = some (e, rest) ∧ es = e :: es' := by
  rw [elements?] at h
  split at h
  · cases h
  · rename_i e rest hread
    obtain ⟨es', -, rfl⟩ := Option.map_eq_some_iff.mp h
    exact ⟨e, rest, es', hread, rfl⟩

theorem expect?_eq_some_iff {tag : UInt8} {e : Element} {content : Bytes} :
    e.expect? tag = some content ↔ e = ⟨tag, content⟩ := by
  unfold Element.expect?
  constructor
  · intro h
    split at h
    · rename_i htag
      obtain rfl := Option.some.inj h
      rw [← htag]
    · cases h
  · rintro rfl
    exact if_pos rfl

/-! ## Structures of limited size -/

/-- Whether the tags of all elements may occur. -/
def tagged (es : List Element) : Bool := es.all fun e => isTag e.tag

theorem length_toBytes_le_of_mem {es : List Element} {e : Element} (he : e ∈ es) :
    e.toBytes.length ≤ (sequence es).toBytes.length := by
  have hcontent : e.toBytes.length ≤ (es.flatMap Element.toBytes).length :=
    (List.sublist_flatten_of_mem (List.mem_map_of_mem he)).length_le
  exact Nat.le_trans hcontent (Nat.le_of_lt (length_content_lt (sequence es)))

/-- The size of a structure, from that of its fields. -/
theorem length_sequence_le {es : List Element} {n : Nat}
    (h : (es.flatMap Element.toBytes).length ≤ n) (hn : n < 256 ^ 4) :
    (sequence es).toBytes.length ≤ n + 6 := by
  have hcontent : (sequence es).content.length ≤ n := h
  exact Nat.le_trans (length_toBytes_le (Nat.lt_of_le_of_lt hcontent hn))
    (Nat.add_le_add_right hcontent 6)

theorem parse?_sequence {es : List Element} (hsize : (sequence es).toBytes.length ≤ maxSize) :
    parse? (sequence es).toBytes = some (sequence es) :=
  parse?_toBytes rfl hsize

theorem sequence?_sequence_of_size {es : List Element} (htags : tagged es = true)
    (hsize : (sequence es).toBytes.length ≤ maxSize) : (sequence es).sequence? = some es := by
  apply sequence?_sequence
  intro e he
  exact Element.fits_of_size (List.all_eq_true.mp htags e he)
    (Nat.le_trans (length_toBytes_le_of_mem he) hsize)

/-! ## Simple values -/


theorem octets?_octetString (bytes : Bytes) : (octetString bytes).octets? = some bytes := rfl

theorem bits?_bitString_ofBytes (bytes : Bytes) :
    (bitString (.ofBytes bytes)).bits? = some (.ofBytes bytes) := rfl

theorem Bits.toBytes?_ofBytes (bytes : Bytes) : (Bits.ofBytes bytes).toBytes? = some bytes := rfl

theorem oid?_oid {o : Oid} (h : Oid.ofBytes? o.body = some o) : (oid o).oid? = some o := h

theorem length_lt_octetString (bytes : Bytes) : bytes.length < (octetString bytes).toBytes.length :=
  length_content_lt (octetString bytes)

theorem length_lt_explicit (number : Nat) (e : Element) :
    e.toBytes.length < (explicit number e).toBytes.length :=
  length_content_lt (explicit number e)

theorem explicit?_explicit (number : Nat) {e : Element} (htag : isTag e.tag = true)
    (hsize : e.toBytes.length ≤ maxSize) : (explicit number e).explicit? number = some e := by
  have hexpect : (explicit number e).expect? (explicitTag number) = some e.toBytes := if_pos rfl
  rw [Element.explicit?, hexpect]
  exact parse?_toBytes htag hsize

/-! ## Fields with numbers -/

/-- A tag with a number of the context. -/
structure Numbered (tag : UInt8) (number : Nat) : Prop where
  contextual : isContextual tag = true
  number : tagNumber tag = number

theorem numbered_explicitTag : Numbered (explicitTag 1) 1 := ⟨by decide, by decide⟩

theorem numbered_implicitTag : Numbered (implicitTag 1) 1 := ⟨by decide, by decide⟩

/-- A field whose number is not lower is not skipped. -/
theorem takeField_cons {number m : Nat} {e : Element} (he : Numbered e.tag m) (h : number ≤ m)
    (fields : List Element) :
    takeField number (e :: fields) =
      if m = number then (some e, fields) else (none, e :: fields) := by
  have hstays : (isContextual e.tag && decide (tagNumber e.tag < number)) = false := by
    rw [he.number, decide_eq_false (Nat.not_lt_of_le h), Bool.and_false]
  have hnumber : e.hasNumber number = decide (m = number) := by
    rw [Element.hasNumber, he.contextual, he.number, Bool.true_and]
    rfl
  unfold takeField
  rw [List.dropWhile_cons, hstays]
  show (if e.hasNumber number = true then _ else _) = _
  simp only [hnumber, decide_eq_true_eq]

/-! ## Numbers -/

/-- The number of bytes of a number besides the first one. -/
def furtherBytes (n : Nat) : Nat := if n = 0 then 0 else (Nat.log2 n + 1) / 8

theorem content_integer (n : Nat) : (integer n).content = Bytes.ofNatBE (furtherBytes n + 1) n := by
  unfold integer furtherBytes
  split
  · rfl
  · rfl

theorem two_pow_eq (k : Nat) : 2 ^ (8 * k + 7) = 128 * 256 ^ k := by
  rw [Nat.pow_add, Nat.pow_mul, Nat.mul_comm]

/-- The top bit of the first byte is clear. -/
theorem lt_of_furtherBytes (n : Nat) : n < 128 * 256 ^ furtherBytes n := by
  rw [← two_pow_eq, furtherBytes]
  split
  · rename_i hzero
    rw [hzero]
    exact Nat.two_pow_pos _
  · have hbits : Nat.log2 n + 1 ≤ 8 * ((Nat.log2 n + 1) / 8) + 7 := by omega
    exact Nat.lt_of_lt_of_le Nat.lt_log2_self (Nat.pow_le_pow_right (by decide) hbits)

/-- The first nine bits are not all clear. -/
theorem le_of_furtherBytes_eq_succ {n k : Nat} (h : furtherBytes n = k + 1) : 128 * 256 ^ k ≤ n := by
  rw [furtherBytes] at h
  split at h
  · cases h
  · rename_i hne
    have hbits : 8 * k + 7 ≤ Nat.log2 n := by omega
    rw [← two_pow_eq]
    exact (Nat.le_log2 hne).mp hbits

theorem natural?_integer (n : Nat) : (integer n).natural? = some n := by
  have hexpect : (integer n).expect? integerTag = some (Bytes.ofNatBE (furtherBytes n + 1) n) := by
    rw [← content_integer]
    exact if_pos rfl
  have hlt := lt_of_furtherBytes n
  have hvalue : Bytes.toNatBE (Bytes.ofNatBE (furtherBytes n + 1) n) = n := by
    apply Bytes.toNatBE_ofNatBE_of_lt
    rw [Nat.pow_succ]
    omega
  unfold Element.natural?
  rw [hexpect]
  simp only [Option.bind_eq_bind, Option.bind_some]
  cases hcount : furtherBytes n with
  | zero =>
      rw [hcount, Nat.pow_zero, Nat.mul_one] at hlt
      have hn := UInt8.toNat_ofNat_of_lt' (Nat.lt_trans hlt (by decide))
      have hsmall : UInt8.ofNat n < 0x80 := by
        rw [UInt8.lt_iff_toNat_lt, hn]
        exact hlt
      rw [Bytes.ofNatBE_succ, Nat.pow_zero, Nat.div_one]
      show (if UInt8.ofNat n < 0x80 then some (UInt8.ofNat n).toNat else none) = _
      rw [if_pos hsmall, hn]
  | succ k =>
      rw [hcount] at hlt hvalue
      have hle := le_of_furtherBytes_eq_succ hcount
      have hpos : 0 < 256 ^ (k + 1) := Nat.pow_pos (by decide)
      have hfirst : n / 256 ^ (k + 1) < 128 := Nat.div_lt_of_lt_mul (by rwa [Nat.mul_comm])
      have hb := UInt8.toNat_ofNat_of_lt' (Nat.lt_trans hfirst (by decide))
      have hkept : ¬(0x80 ≤ UInt8.ofNat (n / 256 ^ (k + 1)) ∨
          (UInt8.ofNat (n / 256 ^ (k + 1)) = 0 ∧ UInt8.ofNat (n / 256 ^ k) < 0x80)) := by
        rintro (hhigh | ⟨hzero, hlow⟩)
        · rw [UInt8.le_iff_toNat_le, hb] at hhigh
          exact absurd hfirst (Nat.not_lt_of_le hhigh)
        · rw [← UInt8.toNat_inj, hb] at hzero
          have hshort : n < 256 ^ (k + 1) := (Nat.div_eq_zero_iff_lt hpos).mp hzero
          have hdigit : n / 256 ^ k < 256 := by
            rw [Nat.pow_succ] at hshort
            exact Nat.div_lt_of_lt_mul hshort
          have hlarge : 128 ≤ n / 256 ^ k := (Nat.le_div_iff_mul_le (Nat.pow_pos (by decide))).mpr hle
          rw [UInt8.lt_iff_toNat_lt, UInt8.toNat_ofNat_of_lt' hdigit] at hlow
          exact absurd hlarge (Nat.not_le_of_lt hlow)
      rw [Bytes.ofNatBE_succ, Bytes.ofNatBE_succ] at hvalue ⊢
      show (if _ then _ else _) = _
      rw [if_neg hkept, hvalue]

theorem furtherBytes_le {n k : Nat} (h : n < 256 ^ k) : furtherBytes n ≤ k := by
  rw [furtherBytes]
  split
  · exact Nat.zero_le k
  · rename_i hne
    have hbits : Nat.log2 n < 8 * k := by
      rw [Nat.log2_lt hne, Nat.pow_mul]
      exact h
    omega

/-- The encoding of a number of `k` bytes. -/
theorem length_toBytes_integer_le {n k : Nat} (h : n < 256 ^ k) (hk : k + 1 < 256 ^ 4) :
    (integer n).toBytes.length ≤ k + 7 := by
  have hfurther := furtherBytes_le h
  have hcontent : (integer n).content.length = furtherBytes n + 1 := by
    rw [content_integer, Bytes.length_ofNatBE]
  have htotal := @length_toBytes_le (integer n) (by omega)
  omega

theorem naturalBelow?_integer {n bound : Nat} (h : n < bound) :
    (integer n).naturalBelow? bound = some n := by
  rw [Element.naturalBelow?, natural?_integer]
  exact if_pos h

theorem tagged_map_integer (ns : List Nat) : tagged (ns.map integer) = true := by
  rw [tagged, List.all_map, List.all_eq_true]
  intro n _
  rfl

theorem mapM_natural?_map_integer (ns : List Nat) :
    (ns.map integer).mapM Element.natural? = some ns := by
  induction ns with
  | nil => rfl
  | cons n ns ih =>
      rw [List.map_cons, List.mapM_cons, natural?_integer, ih]
      rfl

end Firmware.Der
