import Firmware.Proofs.Bytes
import Firmware.Proofs.Sink
import Firmware.Tlv

/-!
# Reading and writing a TLV area

A value stands in its area as `Tlv.toBytes`, and the area is the values one after the other.
`readAll_eq_ok_iff` says that reading accepts exactly the concatenations of values whose data fits a
16-bit length, and yields those values; `toBytes_script_eq_ok_iff` says the same of writing.  Since
an area has no length of its own, reading goes on to the end of the input and the rest is empty.
-/

namespace Firmware.Tlv

/-! ## Tags -/

/-- A tag of a signature has no other meaning. -/
theorem tags_of_isSignature {tag : UInt8} (h : isSignature tag = true) :
    tag ≠ keyHashTag ∧ tag ≠ sha256Tag ∧ isSecret tag = false := by
  refine ⟨?_, ?_, ?_⟩
  · rintro rfl
    exact absurd h (by decide)
  · rintro rfl
    exact absurd h (by decide)
  · rw [isSecret, Bool.or_eq_false_iff, beq_eq_false_iff_ne, beq_eq_false_iff_ne]
    constructor
    · rintro rfl
      exact absurd h (by decide)
    · rintro rfl
      exact absurd h (by decide)

/-- Nor has a tag of a wrapped secret. -/
theorem tags_of_isSecret {tag : UInt8} (h : isSecret tag = true) :
    tag ≠ keyHashTag ∧ tag ≠ sha256Tag := by
  constructor
  · rintro rfl
    exact absurd h (by decide)
  · rintro rfl
    exact absurd h (by decide)

/-! ## Reading -/

/-- Whether the data of a value fits its 16-bit length. -/
def Fits (t : Tlv) : Prop := t.data.length < UInt16.size

theorem toNatLE_length_bytes {t : Tlv} (h : t.Fits) :
    Bytes.toNatLE (Bytes.ofNatLE 2 t.data.length) = t.data.length :=
  Bytes.toNatLE_ofNatLE_of_lt h

@[simp] theorem length_toBytes (t : Tlv) : t.toBytes.length = t.size := by
  simp only [toBytes, headerBytes, size, sizeFor, List.length_append, List.length_cons,
    Bytes.length_ofNatLE]

theorem read_eq_ok_iff {index offset : Nat} {bs rest : Bytes} {t : Tlv} :
    read index offset bs = .ok (t, rest) ↔ bs = t.toBytes ++ rest ∧ t.Fits := by
  constructor
  · intro h
    unfold read at h
    split at h
    · rename_i tag pad low high r
      dsimp only at h
      split at h
      · rename_i d r' hs
        cases h
        obtain ⟨rfl, hlen⟩ := Bytes.splitAt?_eq_some_iff.mp hs
        have hlt : Bytes.toNatLE [low, high] < 256 ^ 2 := Bytes.toNatLE_lt [low, high]
        have hcoded : Bytes.ofNatLE 2 d.length = [low, high] := by
          rw [hlen]
          exact Bytes.ofNatLE_toNatLE [low, high]
        refine ⟨?_, Nat.lt_of_le_of_lt (Nat.le_of_eq hlen) hlt⟩
        rw [toBytes, headerBytes, hcoded]
        rfl
      · cases h
    · cases h
  · rintro ⟨rfl, hfits⟩
    have hlen := toNatLE_length_bytes hfits
    have hsplit : Bytes.splitAt? t.data.length (t.data ++ rest) = some (t.data, rest) :=
      Bytes.splitAt?_eq_some_iff.mpr ⟨rfl, rfl⟩
    simp only [Bytes.ofNatLE] at hlen
    simp only [toBytes, headerBytes, Bytes.ofNatLE, List.cons_append, List.nil_append, read, hlen,
      hsplit]

theorem readFrom_nil (index offset : Nat) : readFrom index offset [] = .ok [] := by
  rw [readFrom]
  rfl

theorem readFrom_cons {index offset : Nat} {bs rest : Bytes} {t : Tlv}
    (h : read index offset bs = .ok (t, rest)) :
    readFrom index offset bs =
      match readFrom (index + 1) (offset + t.size) rest with
      | .error e => .error e
      | .ok ts => .ok (t :: ts) := by
  have hne : bs.isEmpty = false := by
    obtain ⟨rfl, -⟩ := read_eq_ok_iff.mp h
    rfl
  rw [readFrom, hne]
  simp only [Bool.false_eq_true, if_false]
  split
  · rename_i e he
    rw [h] at he
    cases he
  · rename_i t' rest' he
    rw [h] at he
    cases he
    rfl

theorem readFrom_of_error {index offset : Nat} {bs : Bytes} {e : Error} (hne : bs ≠ [])
    (h : read index offset bs = .error e) : readFrom index offset bs = .error e := by
  rw [readFrom, if_neg (mt List.isEmpty_iff.mp hne)]
  split
  · rename_i h'
    cases h.symm.trans h'
    rfl
  · rename_i h'
    cases h.symm.trans h'

/-- Reading a list of values: the induction is on the input that is left. -/
theorem readFrom_eq_ok_iff {index offset : Nat} {bs : Bytes} {ts : List Tlv} :
    readFrom index offset bs = .ok ts ↔ bs = ts.flatMap toBytes ∧ ∀ t ∈ ts, t.Fits := by
  constructor
  · intro h
    fun_induction readFrom index offset bs generalizing ts with
    | case1 index offset bs hempty =>
        cases h
        exact ⟨List.isEmpty_iff.mp hempty, fun _ ht => absurd ht List.not_mem_nil⟩
    | case2 => cases h
    | case3 => cases h
    | case4 index offset bs _ t rest hread _ ts' _ ih =>
        cases h
        obtain ⟨rfl, hfits⟩ := read_eq_ok_iff.mp hread
        obtain ⟨hrest, hall⟩ := ih ‹_›
        exact ⟨by rw [List.flatMap_cons, ← hrest], List.forall_mem_cons.mpr ⟨hfits, hall⟩⟩
  · rintro ⟨rfl, hall⟩
    induction ts generalizing index offset with
    | nil => exact readFrom_nil index offset
    | cons t ts ih =>
        obtain ⟨hfits, hall⟩ := List.forall_mem_cons.mp hall
        rw [readFrom_cons (read_eq_ok_iff.mpr ⟨List.flatMap_cons, hfits⟩), ih hall]

theorem readAll_eq_ok_iff {bs : Bytes} {ts : List Tlv} :
    readAll bs = .ok ts ↔ bs = ts.flatMap toBytes ∧ ∀ t ∈ ts, t.Fits := readFrom_eq_ok_iff

/-! ## Writing -/

theorem toBytes_scriptFrom_eq_ok_iff {index : Nat} {ts : List Tlv} {bs : Bytes} :
    (scriptFrom index ts).toBytes = .ok bs ↔ ts.flatMap toBytes = bs ∧ ∀ t ∈ ts, t.Fits := by
  induction ts generalizing index bs with
  | nil => simp [scriptFrom, Script.toBytes]
  | cons t ts ih =>
      rw [scriptFrom, List.forall_mem_cons]
      split
      · rename_i hfits
        rw [Script.toBytes_prepend_eq_ok_iff]
        constructor
        · rintro ⟨rest, hrest, rfl⟩
          obtain ⟨rfl, hall⟩ := ih.mp hrest
          exact ⟨by simp [toBytes], hfits, hall⟩
        · rintro ⟨rfl, -, hall⟩
          exact ⟨_, ih.mpr ⟨rfl, hall⟩, by simp [toBytes]⟩
      · rename_i hlarge
        constructor
        · intro h
          cases h
        · rintro ⟨-, hfits, -⟩
          exact absurd hfits hlarge

theorem toBytes_script_eq_ok_iff {ts : List Tlv} {bs : Bytes} :
    (script ts).toBytes = .ok bs ↔ ts.flatMap toBytes = bs ∧ ∀ t ∈ ts, t.Fits :=
  toBytes_scriptFrom_eq_ok_iff

/-! ## Sizes -/

theorem length_flatMap_toBytes (ts : List Tlv) : (ts.flatMap toBytes).length = areaSize ts := by
  induction ts with
  | nil => rfl
  | cons t ts ih => rw [List.flatMap_cons, List.length_append, length_toBytes, ih]; rfl

theorem size_le_areaSize {t : Tlv} {ts : List Tlv} (h : t ∈ ts) : t.size ≤ areaSize ts := by
  induction h with
  | head ts => exact Nat.le_add_right _ _
  | tail s _ ih => exact Nat.le_trans ih (Nat.le_add_left _ _)

/-- In an area whose size fits 16 bits, so does the data of every value. -/
theorem fits_of_areaSize_lt {t : Tlv} {ts : List Tlv} (h : t ∈ ts)
    (hsize : areaSize ts < UInt16.size) : t.Fits := by
  have hle := size_le_areaSize h
  rw [size, sizeFor] at hle
  exact Nat.lt_of_le_of_lt (Nat.le_trans (Nat.le_add_left _ 4) hle) hsize

/-! ## Looking up -/

/-- A value is the only one with a tag. -/
theorem findUnique_eq_ok_iff {tag : UInt8} {ts : List Tlv} {t : Tlv} :
    findUnique tag ts = .ok t ↔ ts.filter (·.tag = tag) = [t] := by
  unfold findUnique
  split
  · rename_i t' hfilter
    rw [hfilter]
    constructor
    · intro h
      rw [Except.ok.inj h]
    · intro h
      rw [(List.cons.inj h).1]
  · rename_i hother
    constructor
    · intro h
      cases h
    · intro h
      exact absurd h (hother t)

end Firmware.Tlv
