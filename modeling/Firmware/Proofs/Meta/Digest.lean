import Firmware.Proofs.Meta.Format
import Firmware.Proofs.Meta.Splice
import Firmware.Proofs.Run

/-!
# The digest of a carrying binary

`rehash_sets_digest` : a digest can be computed for exactly the regions that have one digest of 32
bytes and fit their fields; the result differs from what was there in the place of the region and
nowhere else, and the region differs in its digest only; the digest is that of the resulting binary
with zeros in the place of the digest; and neither the old digest, nor the bytes that the region
covers, nor a second run change anything.

Two operations carry the proof.  `Meta.splice` puts the bytes of a region into a binary, and
`Meta.withDigest` puts a digest into a region.  Each of them forgets what an earlier one of its kind
has done, `splice_splice` and `withDigest_withDigest`, and `rehash_eq_ok_iff` says that a new digest
is made of these two alone.  The two-run statements then need no more than rewriting.
-/

namespace Firmware.Meta

open Bytes (overwrite slice zeros)

/-! ## Putting a digest into a region -/

/-- The region has one digest, and it is a whole one. -/
structure HasDigest (m : Meta) (digest : Bytes) : Prop where
  unique : m.items.filter (·.tag = hashTag) = [⟨hashTag, digest⟩]
  length : digest.length = hashLength

/-- The region with another digest. -/
def withDigest (m : Meta) (digest : Bytes) : Meta :=
  { m with items := m.items.map fun t => if t.tag = hashTag then { t with data := digest } else t }

/-- Where the digest stands in the region. -/
def digestOffset (m : Meta) : Nat := areaSize (m.items.takeWhile (·.tag ≠ hashTag)) + 2

@[simp] theorem footer_withDigest (m : Meta) (digest : Bytes) :
    (m.withDigest digest).footer = m.footer := rfl

/-- A second digest takes the place of the first one. -/
@[simp] theorem withDigest_withDigest (m : Meta) (first second : Bytes) :
    (m.withDigest first).withDigest second = m.withDigest second := by
  simp only [withDigest, List.map_map, Meta.mk.injEq, and_true]
  apply List.map_congr_left
  intro t _
  by_cases h : t.tag = hashTag
  · simp [h]
  · simp [h]

/-- The values of a region around the only digest. -/
structure DigestBetween (m : Meta) (before : List Item) (digest : Bytes) (behind : List Item) :
    Prop where
  items_eq : m.items = before ++ ⟨hashTag, digest⟩ :: behind
  before_ne : ∀ t ∈ before, t.tag ≠ hashTag
  behind_ne : ∀ t ∈ behind, t.tag ≠ hashTag

theorem areaSize_append (ts us : List Item) : areaSize (ts ++ us) = areaSize ts + areaSize us := by
  induction ts with
  | nil => exact (Nat.zero_add _).symm
  | cons t ts ih =>
      show t.size + areaSize (ts ++ us) = t.size + areaSize ts + areaSize us
      rw [ih, Nat.add_assoc]

theorem map_of_tag_ne {ts : List Item} (h : ∀ t ∈ ts, t.tag ≠ hashTag) (digest : Bytes) :
    ts.map (fun t => if t.tag = hashTag then { t with data := digest } else t) = ts := by
  conv_rhs => rw [← List.map_id ts]
  apply List.map_congr_left
  intro t ht
  exact if_neg (h t ht)

theorem getElem?_offsetsFrom (start : Nat) (before : List Item) (t : Item) (behind : List Item) :
    (offsetsFrom start (before ++ t :: behind)).1[before.length]? =
      some (start + areaSize before) := by
  induction before generalizing start with
  | nil => rfl
  | cons u before ih =>
      show (offsetsFrom (start + u.size) (before ++ t :: behind)).1[before.length]? = _
      rw [ih, Nat.add_assoc]
      rfl

namespace DigestBetween

variable {m : Meta} {before behind : List Item} {digest : Bytes}

theorem filter_eq (h : m.DigestBetween before digest behind) :
    m.items.filter (·.tag = hashTag) = [⟨hashTag, digest⟩] := by
  have hbefore : before.filter (·.tag = hashTag) = [] :=
    List.filter_eq_nil_iff.mpr fun t ht => by simpa using h.before_ne t ht
  have hbehind : behind.filter (·.tag = hashTag) = [] :=
    List.filter_eq_nil_iff.mpr fun t ht => by simpa using h.behind_ne t ht
  rw [h.items_eq, List.filter_append, hbefore, List.nil_append, List.filter_cons_of_pos, hbehind]
  exact decide_eq_true rfl

theorem withDigest (h : m.DigestBetween before digest behind) (fresh : Bytes) :
    (m.withDigest fresh).DigestBetween before fresh behind := by
  refine ⟨?_, h.before_ne, h.behind_ne⟩
  rw [Meta.withDigest, h.items_eq, List.map_append, List.map_cons, map_of_tag_ne h.before_ne,
    map_of_tag_ne h.behind_ne, if_pos rfl]

theorem digestOffset_eq (h : m.DigestBetween before digest behind) :
    m.digestOffset = areaSize before + 2 := by
  have hbefore : ∀ t ∈ before, decide (t.tag ≠ hashTag) = true :=
    fun t ht => decide_eq_true (h.before_ne t ht)
  have hdigest : decide (hashTag ≠ hashTag) = false := decide_eq_false (not_not_intro rfl)
  rw [digestOffset, h.items_eq, List.takeWhile_append_of_pos hbefore, List.takeWhile_cons, hdigest]
  simp

theorem size_eq (h : m.DigestBetween before digest behind) :
    m.size = areaSize before + 2 + digest.length + areaSize behind + footerLength := by
  rw [Meta.size, h.items_eq, areaSize_append]
  show areaSize before + ((2 + digest.length) + areaSize behind) + footerLength = _
  omega

/-- The bytes of the region around the digest. -/
theorem bytes_eq (h : m.DigestBetween before digest behind) :
    m.bytes =
      (before.flatMap Item.toBytes ++ [hashTag, UInt8.ofNat digest.length]) ++ digest ++
        (behind.flatMap Item.toBytes ++ m.footerBytes) := by
  rw [bytes, h.items_eq, List.flatMap_append, List.flatMap_cons, Item.toBytes, Item.headerBytes]
  simp only [List.append_assoc]

/-- Changing the value at the digest's place in the list changes the digest. -/
theorem setData_eq (h : m.DigestBetween before digest behind) (fresh : Bytes) :
    m.setData before.length fresh = m.withDigest fresh := by
  have hitems : (m.withDigest fresh).items = before ++ ⟨hashTag, fresh⟩ :: behind :=
    (h.withDigest fresh).items_eq
  have hlt : before.length < m.items.length := by
    rw [h.items_eq, List.length_append]
    simp
  have hset : (m.setData before.length fresh).items = before ++ ⟨hashTag, fresh⟩ :: behind := by
    rw [setData, List.modify_eq_take_cons_drop hlt]
    simp [h.items_eq]
  show Meta.mk (m.setData before.length fresh).items m.footer =
    Meta.mk (m.withDigest fresh).items m.footer
  rw [hset, hitems]

theorem length_front (h : m.DigestBetween before digest behind) :
    (before.flatMap Item.toBytes ++ [hashTag, UInt8.ofNat digest.length]).length =
      m.digestOffset := by
  rw [List.length_append, length_flatMap_toBytes, h.digestOffset_eq]
  rfl

/-- The offset of the value with the digest, which is two bytes before the digest. -/
theorem exists_offset (h : m.DigestBetween before digest behind) :
    ∃ place, m.offsets.items[before.length]? = some place ∧ place + 2 = m.digestOffset := by
  refine ⟨areaSize before, ?_, h.digestOffset_eq.symm⟩
  show (offsetsFrom 0 m.items).1[before.length]? = _
  rw [h.items_eq, getElem?_offsetsFrom, Nat.zero_add]

theorem offset_eq (h : m.DigestBetween before digest behind) :
    m.offsets.items.getD before.length 0 + 2 = m.digestOffset := by
  obtain ⟨place, hplace, hdigest⟩ := h.exists_offset
  rw [List.getD_eq_getElem?_getD, hplace]
  exact hdigest

end DigestBetween

theorem HasDigest.exists_between {m : Meta} {digest : Bytes} (h : m.HasDigest digest) :
    ∃ before behind, m.DigestBetween before digest behind := by
  obtain ⟨before, behind, hitems, hbefore, -, hbehind⟩ := List.filter_eq_cons_iff.mp h.unique
  refine ⟨before, behind, hitems, fun t ht => ?_, fun t ht => ?_⟩
  · simpa using hbefore t ht
  · simpa using List.filter_eq_nil_iff.mp hbehind t ht

theorem DigestBetween.zipIdx_filter_eq {m : Meta} {before behind : List Item} {digest : Bytes}
    (h : m.DigestBetween before digest behind) :
    m.items.zipIdx.filter (fun (t, _) => t.tag = hashTag) =
      [(⟨hashTag, digest⟩, before.length)] := by
  have hnone : ∀ (ts : List Item) (k : Nat), (∀ t ∈ ts, t.tag ≠ hashTag) →
      (ts.zipIdx k).filter (fun (t, _) => t.tag = hashTag) = [] := by
    intro ts k hts
    rw [List.filter_eq_nil_iff]
    rintro ⟨t, i⟩ hmem
    simpa using hts t (List.fst_mem_of_mem_zipIdx hmem)
  rw [h.items_eq, List.zipIdx_append, List.filter_append, hnone before 0 h.before_ne,
    List.nil_append, List.zipIdx_cons, List.filter_cons_of_pos, hnone behind _ h.behind_ne,
    Nat.zero_add]
  exact decide_eq_true rfl

/-- The digest is found exactly if it is the only one and has its length. -/
theorem hashItem_eq_ok_iff {m : Meta} {t : Item} {i : Nat} :
    m.hashItem = .ok (t, i) ↔
      m.HasDigest t.data ∧ t.tag = hashTag ∧
        ∃ before behind, m.DigestBetween before t.data behind ∧ before.length = i := by
  have hmap : m.items.filter (·.tag = hashTag) =
      (m.items.zipIdx.filter fun (t, _) => t.tag = hashTag).map Prod.fst := by
    conv_lhs => rw [← List.zipIdx_map_fst 0 m.items, List.filter_map]
    rfl
  unfold hashItem
  constructor
  · intro h
    split at h
    · rename_i t' i' hfound
      split at h
      · rename_i hlength
        cases h
        rw [hfound] at hmap
        have htag : t.tag = hashTag := by
          have hmem : t ∈ m.items.filter (·.tag = hashTag) := by
            rw [hmap]
            exact List.mem_singleton_self t
          simpa using (List.mem_filter.mp hmem).2
        have hdigest : m.HasDigest t.data := by
          refine ⟨?_, hlength⟩
          rw [hmap, ← htag]
          rfl
        obtain ⟨before, behind, hbetween⟩ := hdigest.exists_between
        have hplace : (t, i) = (⟨hashTag, t.data⟩, before.length) :=
          List.head_eq_of_cons_eq (hfound.symm.trans hbetween.zipIdx_filter_eq)
        exact ⟨hdigest, htag, before, behind, hbetween, (congrArg Prod.snd hplace).symm⟩
      · cases h
    · cases h
  · rintro ⟨hdigest, htag, before, behind, hbetween, rfl⟩
    obtain ⟨tag, data⟩ := t
    obtain rfl : tag = hashTag := htag
    rw [hbetween.zipIdx_filter_eq]
    exact if_pos hdigest.length

theorem hash_eq_ok_iff {m : Meta} {digest : Bytes} :
    m.hash = .ok digest ↔ m.HasDigest digest := by
  rw [hash, map_eq_ok_iff]
  constructor
  · rintro ⟨⟨t, i⟩, hitem, rfl⟩
    exact (hashItem_eq_ok_iff.mp hitem).1
  · intro h
    obtain ⟨before, behind, hbetween⟩ := h.exists_between
    exact ⟨(⟨hashTag, digest⟩, before.length),
      hashItem_eq_ok_iff.mpr ⟨h, rfl, before, behind, hbetween, rfl⟩, rfl⟩

theorem hashIndex_eq_ok_iff {m : Meta} {i : Nat} :
    m.hashIndex = .ok i ↔
      ∃ digest, m.HasDigest digest ∧
        ∃ before behind, m.DigestBetween before digest behind ∧ before.length = i := by
  rw [hashIndex, map_eq_ok_iff]
  constructor
  · rintro ⟨⟨t, i⟩, hitem, rfl⟩
    obtain ⟨hdigest, -, hbetween⟩ := hashItem_eq_ok_iff.mp hitem
    exact ⟨t.data, hdigest, hbetween⟩
  · rintro ⟨digest, h, hbetween⟩
    exact ⟨(⟨hashTag, digest⟩, i), hashItem_eq_ok_iff.mpr ⟨h, rfl, hbetween⟩, rfl⟩

/-- A digest is missing, or there is more than one, or it has not its length. -/
theorem hashIndex_eq_error {m : Meta} {e : Error} (h : m.hashIndex = .error e) :
    (∃ name count, e = .tlvNotUnique name count) ∨ ∃ name len, e = .tlvInvalidSize name len := by
  rw [hashIndex, hashItem] at h
  split at h
  · split at h
    · cases h
    · cases h
      exact .inr ⟨_, _, rfl⟩
  · cases h
    exact .inl ⟨_, _, rfl⟩

/-! ### A region with a fresh digest -/

section Fresh

variable {m : Meta} {digest fresh : Bytes}

theorem HasDigest.withDigest (h : m.HasDigest digest) (hfresh : fresh.length = hashLength) :
    (m.withDigest fresh).HasDigest fresh := by
  obtain ⟨before, behind, hbetween⟩ := h.exists_between
  exact ⟨(hbetween.withDigest fresh).filter_eq, hfresh⟩

theorem HasDigest.withDigest_self (h : m.HasDigest digest) : m.withDigest digest = m := by
  obtain ⟨before, behind, hbetween⟩ := h.exists_between
  show Meta.mk (m.withDigest digest).items m.footer = Meta.mk m.items m.footer
  rw [(hbetween.withDigest digest).items_eq, hbetween.items_eq]

theorem HasDigest.size_withDigest (h : m.HasDigest digest) (hfresh : fresh.length = hashLength) :
    (m.withDigest fresh).size = m.size := by
  obtain ⟨before, behind, hbetween⟩ := h.exists_between
  rw [(hbetween.withDigest fresh).size_eq, hbetween.size_eq, h.length, hfresh]

theorem HasDigest.digestOffset_withDigest (h : m.HasDigest digest) :
    (m.withDigest fresh).digestOffset = m.digestOffset := by
  obtain ⟨before, behind, hbetween⟩ := h.exists_between
  rw [(hbetween.withDigest fresh).digestOffset_eq, hbetween.digestOffset_eq]

/-- The digest lies in the region. -/
theorem HasDigest.digestOffset_add_le (h : m.HasDigest digest) :
    m.digestOffset + hashLength ≤ m.size := by
  obtain ⟨before, behind, hbetween⟩ := h.exists_between
  rw [hbetween.digestOffset_eq, hbetween.size_eq, h.length]
  omega

theorem HasDigest.length_bytes_withDigest (h : m.HasDigest digest)
    (hfresh : fresh.length = hashLength) : (m.withDigest fresh).bytes.length = m.size := by
  rw [length_bytes, h.size_withDigest hfresh]

theorem HasDigest.writable_withDigest (h : m.HasDigest digest) (hm : m.Writable)
    (hfresh : fresh.length = hashLength) : (m.withDigest fresh).Writable := by
  refine ⟨?_, Nat.lt_of_le_of_lt (Nat.le_of_eq (h.size_withDigest hfresh)) hm.size_lt⟩
  intro t ht
  obtain ⟨u, hu, rfl⟩ := List.mem_map.mp ht
  by_cases htag : u.tag = hashTag
  · rw [if_pos htag, Item.Fits, hfresh]
    decide
  · rw [if_neg htag]
    exact hm.fits u hu

theorem HasDigest.sound_withDigest (h : m.HasDigest digest) (hm : m.Sound)
    (hfresh : fresh.length = hashLength) : (m.withDigest fresh).Sound :=
  { h.writable_withDigest hm.toWritable hfresh with
    footer_size := hm.footer_size.trans (h.size_withDigest hfresh).symm }

/-- The digest bytes of a region. -/
theorem HasDigest.slice_bytes (h : m.HasDigest digest) :
    slice m.bytes m.digestOffset (m.digestOffset + hashLength) = digest := by
  obtain ⟨before, behind, hbetween⟩ := h.exists_between
  have hslice := Bytes.slice_append
    (before.flatMap Item.toBytes ++ [hashTag, UInt8.ofNat digest.length]) digest
    (behind.flatMap Item.toBytes ++ m.footerBytes)
  rwa [← hbetween.bytes_eq, hbetween.length_front, h.length] at hslice

/-- A digest written into a region makes the region with this digest. -/
theorem HasDigest.overwrite_bytes (h : m.HasDigest digest) (hfresh : fresh.length = hashLength) :
    overwrite m.bytes m.digestOffset fresh = (m.withDigest fresh).bytes := by
  obtain ⟨before, behind, hbetween⟩ := h.exists_between
  have hlength : fresh.length = digest.length := hfresh.trans h.length.symm
  have hfooter : (m.withDigest fresh).footerBytes = m.footerBytes := by
    rw [footerBytes, footerBytes, h.size_withDigest hfresh, footer_withDigest]
  rw [(hbetween.withDigest fresh).bytes_eq, hfooter, hbetween.bytes_eq, ← hbetween.length_front,
    hlength, Bytes.overwrite_append _ _ hlength]

end Fresh

/-! ## Recomputing the digest -/

/-- The digest of a binary that carries a region at an offset. -/
def freshDigest (m : Meta) (offset : Nat) (carrier : Bytes) (erase : UInt8) : Bytes :=
  Crypto.sha256 (splice carrier offset erase (m.withDigest (zeros hashLength)).bytes)

section Rehash

variable {m : Meta} {digest fresh : Bytes} {offset : Nat} {carrier : Bytes} {erase : UInt8}

theorem length_freshDigest : (m.freshDigest offset carrier erase).length = hashLength :=
  Crypto.length_sha256 _

theorem length_blank : (zeros hashLength).length = hashLength := Bytes.length_zeros _

/-- A digest written over another one in a binary that carries the region. -/
theorem HasDigest.overwrite_digest {old : Bytes} (h : m.HasDigest digest)
    (hold : old.length = hashLength) (hfresh : fresh.length = hashLength) :
    overwrite (splice carrier offset erase (m.withDigest old).bytes) (offset + m.digestOffset) fresh =
      splice carrier offset erase (m.withDigest fresh).bytes := by
  have hplace : m.digestOffset + fresh.length ≤ (m.withDigest old).bytes.length := by
    rw [h.length_bytes_withDigest hold, hfresh]
    exact h.digestOffset_add_le
  rw [overwrite_splice hplace, ← h.digestOffset_withDigest,
    (h.withDigest hold).overwrite_bytes hfresh, withDigest_withDigest]

/-- The digest is computed if the region can be written with zeros in its place. -/
theorem HasDigest.rehash_eq (h : m.HasDigest digest) (offset : Nat) (carrier : Bytes)
    (erase : UInt8) :
    m.rehash offset carrier erase =
      (m.withDigest (zeros hashLength)).toBytes.map fun _ =>
        (m.withDigest (m.freshDigest offset carrier erase),
          splice carrier offset erase
            (m.withDigest (m.freshDigest offset carrier erase)).bytes) := by
  obtain ⟨before, behind, hbetween⟩ := h.exists_between
  have hindex : m.hashIndex = .ok before.length :=
    hashIndex_eq_ok_iff.mpr ⟨digest, h, before, behind, hbetween, rfl⟩
  have hblank := hbetween.withDigest (zeros hashLength)
  have hplace : offset + (m.withDigest (zeros hashLength)).offsets.items.getD before.length 0 + 2 =
      offset + m.digestOffset := by
    rw [Nat.add_assoc, hblank.offset_eq, h.digestOffset_withDigest]
  rw [rehash, hindex]
  simp only [bind, Except.bind, hbetween.setData_eq]
  cases hregion : (m.withDigest (zeros hashLength)).toBytes with
  | error e => rfl
  | ok region =>
      obtain ⟨-, rfl⟩ := toBytes_eq_ok_iff.mp hregion
      show Except.ok _ = Except.ok _
      rw [hblank.setData_eq, withDigest_withDigest, hplace]
      congr 2
      exact h.overwrite_digest length_blank length_freshDigest

/-- A new digest is a matter of putting digests into the region and the region into the binary. -/
theorem rehash_eq_ok_iff {r : Meta × Bytes} :
    m.rehash offset carrier erase = .ok r ↔
      (∃ digest, m.HasDigest digest) ∧ m.Writable ∧
        r = (m.withDigest (m.freshDigest offset carrier erase),
          splice carrier offset erase
            (m.withDigest (m.freshDigest offset carrier erase)).bytes) := by
  constructor
  · intro hr
    obtain ⟨i, hindex, -⟩ := bind_eq_ok_iff.mp hr
    obtain ⟨digest, h, -⟩ := hashIndex_eq_ok_iff.mp hindex
    rw [h.rehash_eq, map_eq_ok_iff] at hr
    obtain ⟨region, hregion, rfl⟩ := hr
    obtain ⟨hblank, -⟩ := toBytes_eq_ok_iff.mp hregion
    have hwritable := (h.withDigest length_blank).writable_withDigest hblank h.length
    rw [withDigest_withDigest, h.withDigest_self] at hwritable
    exact ⟨⟨digest, h⟩, hwritable, rfl⟩
  · rintro ⟨⟨digest, h⟩, hwritable, rfl⟩
    rw [h.rehash_eq, map_eq_ok_iff]
    exact ⟨_, toBytes_eq_ok_iff.mpr ⟨h.writable_withDigest hwritable length_blank, rfl⟩, rfl⟩

/-! ### What the digest depends on -/

/-- The digest that belongs into a binary with the region at an offset: that of the binary with
zeros in the place of the digest. -/
def digestOf (m : Meta) (offset : Nat) (binary : Bytes) : Bytes :=
  Crypto.sha256 (overwrite binary (offset + m.digestOffset) (zeros hashLength))

theorem length_digestOf {binary : Bytes} : (m.digestOf offset binary).length = hashLength :=
  Crypto.length_sha256 _

theorem HasDigest.digestOf_withDigest (h : m.HasDigest digest) (binary : Bytes) :
    (m.withDigest fresh).digestOf offset binary = m.digestOf offset binary := by
  rw [digestOf, h.digestOffset_withDigest, digestOf]

theorem HasDigest.digestOf_splice (h : m.HasDigest digest) (hfresh : fresh.length = hashLength) :
    m.digestOf offset (splice carrier offset erase (m.withDigest fresh).bytes) =
      m.freshDigest offset carrier erase := by
  rw [digestOf, h.overwrite_digest hfresh length_blank, freshDigest]

/-- The digest bytes in a binary that carries the region. -/
theorem HasDigest.slice_splice_digest (h : m.HasDigest digest)
    (hfresh : fresh.length = hashLength) :
    slice (splice carrier offset erase (m.withDigest fresh).bytes) (offset + m.digestOffset)
      (offset + m.digestOffset + hashLength) = fresh := by
  have hfreshDigest := h.withDigest hfresh
  have hplace : m.digestOffset + hashLength ≤ (m.withDigest fresh).bytes.length := by
    rw [h.length_bytes_withDigest hfresh]
    exact h.digestOffset_add_le
  rw [Nat.add_assoc, slice_splice_inside (Nat.le_add_right _ _) hplace,
    ← h.digestOffset_withDigest, hfreshDigest.slice_bytes]

/-- Neither the old digest nor the bytes in the place of the region play a part. -/
theorem HasDigest.freshDigest_congr {carrier' : Bytes} (h : m.HasDigest digest)
    (hcarrier : ∀ i, i < offset ∨ offset + m.size ≤ i → carrier'[i]? = carrier[i]?) :
    (m.withDigest fresh).freshDigest offset carrier' erase =
      m.freshDigest offset carrier erase := by
  rw [freshDigest, withDigest_withDigest, freshDigest, splice_congr]
  rwa [h.length_bytes_withDigest length_blank]

/-- The digest of a binary that has the region in place already; no byte is filled in. -/
theorem HasDigest.freshDigest_splice (h : m.HasDigest digest) (hfresh : fresh.length = hashLength)
    (erase' : UInt8) :
    m.freshDigest offset (splice carrier offset erase (m.withDigest fresh).bytes) erase' =
      m.freshDigest offset carrier erase := by
  rw [freshDigest, splice_splice, freshDigest]
  rw [h.length_bytes_withDigest length_blank, h.length_bytes_withDigest hfresh]

/-- What a new digest comes to: `fresh` is the region `m` with the digest that the binary `binary`
calls for, and the binary is `carrier` with this region at `offset`. -/
structure Rehashed (m : Meta) (offset : Nat) (carrier : Bytes) (erase : UInt8) (fresh : Meta)
    (binary : Bytes) : Prop where
  length : binary.length = max carrier.length (offset + m.size)
  region : fresh.toBytes = .ok (slice binary offset (offset + m.size))
  outside : ∀ i < binary.length, i < offset ∨ offset + m.size ≤ i →
    binary[i]? = some (carrier[i]?.getD erase)
  withDigest : fresh = m.withDigest (m.digestOf offset binary)
  hash : fresh.hash = .ok (m.digestOf offset binary)
  place : slice binary (offset + m.digestOffset) (offset + m.digestOffset + hashLength) =
    m.digestOf offset binary

theorem rehashed_of_rehash {fresh : Meta} {binary : Bytes}
    (hr : m.rehash offset carrier erase = .ok (fresh, binary)) :
    Rehashed m offset carrier erase fresh binary := by
  obtain ⟨⟨digest, h⟩, hwritable, hresult⟩ := rehash_eq_ok_iff.mp hr
  obtain ⟨rfl, rfl⟩ := Prod.mk.inj hresult
  have hlength : (m.freshDigest offset carrier erase).length = hashLength := length_freshDigest
  have hsize : (m.withDigest (m.freshDigest offset carrier erase)).bytes.length = m.size :=
    h.length_bytes_withDigest hlength
  have hdigest : m.digestOf offset (splice carrier offset erase
      (m.withDigest (m.freshDigest offset carrier erase)).bytes) =
        m.freshDigest offset carrier erase := h.digestOf_splice hlength
  exact
    { length := by rw [length_splice, hsize]
      region := by
        rw [← hsize, slice_splice]
        exact toBytes_eq_ok_iff.mpr ⟨h.writable_withDigest hwritable hlength, rfl⟩
      outside := by
        intro i hi hout
        rw [← hsize] at hout
        exact getElem?_splice_of_outside hi hout
      withDigest := by rw [hdigest]
      hash := by
        rw [hdigest]
        exact hash_eq_ok_iff.mpr (h.withDigest hlength)
      place := by rw [hdigest, h.slice_splice_digest hlength] }

/-- A second run, with whatever to fill up, changes nothing. -/
theorem rehash_idempotent {fresh : Meta} {binary : Bytes}
    (hr : m.rehash offset carrier erase = .ok (fresh, binary)) (erase' : UInt8) :
    fresh.rehash offset binary erase' = .ok (fresh, binary) := by
  obtain ⟨⟨digest, h⟩, hwritable, hresult⟩ := rehash_eq_ok_iff.mp hr
  obtain ⟨rfl, rfl⟩ := Prod.mk.inj hresult
  have hlength : (m.freshDigest offset carrier erase).length = hashLength := length_freshDigest
  refine rehash_eq_ok_iff.mpr ⟨⟨_, h.withDigest hlength⟩, h.writable_withDigest hwritable hlength,
    ?_⟩
  have hsame : (m.withDigest (m.freshDigest offset carrier erase)).freshDigest offset
      (splice carrier offset erase (m.withDigest (m.freshDigest offset carrier erase)).bytes)
        erase' = m.freshDigest offset carrier erase := by
    rw [h.freshDigest_congr fun _ _ => rfl, h.freshDigest_splice hlength]
  rw [hsame, withDigest_withDigest, splice_splice rfl]

theorem rehash_withDigest {carrier' : Bytes} {r : Meta × Bytes}
    (hr : m.rehash offset carrier erase = .ok r) (hfresh : fresh.length = hashLength)
    (hcarrier : ∀ i, i < offset ∨ offset + m.size ≤ i → carrier'[i]? = carrier[i]?) :
    (m.withDigest fresh).rehash offset carrier' erase = .ok r := by
  obtain ⟨⟨digest, h⟩, hwritable, rfl⟩ := rehash_eq_ok_iff.mp hr
  refine rehash_eq_ok_iff.mpr ⟨⟨fresh, h.withDigest hfresh⟩,
    h.writable_withDigest hwritable hfresh, ?_⟩
  have hsplice :
      splice carrier' offset erase (m.withDigest (m.freshDigest offset carrier erase)).bytes =
        splice carrier offset erase (m.withDigest (m.freshDigest offset carrier erase)).bytes := by
    apply splice_congr
    rwa [h.length_bytes_withDigest length_freshDigest]
  rw [h.freshDigest_congr hcarrier, withDigest_withDigest, hsplice]

/-- A new digest can be computed for the regions that have one and that fit their fields.  It is the
digest of the binary that comes out, and it is the same whatever digest and whatever bytes stood in
its place, also if it is computed once more. -/
theorem rehash_sets_digest (m : Meta) (offset : Nat) (carrier : Bytes) (erase : UInt8) :
    ((∃ r, m.rehash offset carrier erase = .ok r) ↔
      (∃ digest, m.HasDigest digest) ∧ m.Writable) ∧
    ∀ fresh binary, m.rehash offset carrier erase = .ok (fresh, binary) →
      Rehashed m offset carrier erase fresh binary ∧
      (∀ erase', fresh.rehash offset binary erase' = .ok (fresh, binary)) ∧
      ∀ digest carrier', digest.length = hashLength →
        (∀ i, i < offset ∨ offset + m.size ≤ i → carrier'[i]? = carrier[i]?) →
        (m.withDigest digest).rehash offset carrier' erase = .ok (fresh, binary) := by
  constructor
  · constructor
    · rintro ⟨r, hr⟩
      obtain ⟨hdigest, hwritable, -⟩ := rehash_eq_ok_iff.mp hr
      exact ⟨hdigest, hwritable⟩
    · rintro ⟨hdigest, hwritable⟩
      exact ⟨_, rehash_eq_ok_iff.mpr ⟨hdigest, hwritable, rfl⟩⟩
  · intro fresh binary hr
    refine ⟨rehashed_of_rehash hr, rehash_idempotent hr, ?_⟩
    intro digest carrier' hdigest hcarrier
    exact rehash_withDigest hr hdigest hcarrier

end Rehash

/-! ### A region that was read -/

section Parsed

variable {data : Bytes} {m : Meta} {start : Nat} {erase : UInt8}

/-- A region that was read can be written again with another digest, so only the digest that it has
keeps a new one from being computed. -/
theorem rehash_error_of_parse {e : Error} (hparse : parse data = .ok (m, start))
    (h : m.rehash start data erase = .error e) :
    (∃ name count, e = .tlvNotUnique name count) ∨ ∃ name len, e = .tlvInvalidSize name len := by
  obtain ⟨hsound, -, -⟩ := sound_of_parse hparse
  cases hindex : m.hashIndex with
  | error e' =>
      rw [rehash, hindex] at h
      cases h
      exact hashIndex_eq_error hindex
  | ok i =>
      obtain ⟨digest, hdigest, -⟩ := hashIndex_eq_ok_iff.mp hindex
      obtain ⟨r, hok⟩ : ∃ r, m.rehash start data erase = .ok r :=
        ⟨_, rehash_eq_ok_iff.mpr ⟨⟨digest, hdigest⟩, hsound.toWritable, rfl⟩⟩
      rw [hok] at h
      cases h

/-- A region that was read ends where the data does, so nothing is filled up. -/
theorem length_of_rehash_of_parse {fresh : Meta} {binary : Bytes}
    (hparse : parse data = .ok (m, start))
    (h : m.rehash start data erase = .ok (fresh, binary)) : binary.length = data.length := by
  obtain ⟨-, front, rfl, rfl⟩ := parse_eq_ok_iff.mp hparse
  rw [(rehashed_of_rehash h).length, List.length_append, length_bytes, Nat.max_self]

end Parsed

/-! ### A region across the end of its binary -/

namespace Across

/-- A region with a value on either side of its digest. -/
def region (digest : Bytes) : Meta where
  items := [refItem 7, ⟨hashTag, digest⟩, ⟨9, [1, 2]⟩]
  footer := { size := 49, version := currentVersion, pad := 0xff }

def front : Bytes := [10, 11, 12]

def digest : Bytes :=
  [109, 52, 211, 115, 64, 199, 251, 254, 146, 17, 75,
    175, 58, 67, 46, 123, 103, 27, 162, 220, 195, 191,
    141, 225, 134, 66, 172, 178, 181, 232, 55, 223]

def binary : Bytes :=
  front ++ [refTag, 1, 7] ++ [hashTag, 32] ++ digest ++ [9, 2, 1, 2] ++
    [49, 0, 2, 0xff, 105, 162, 178, 59]

set_option maxRecDepth 100000 in
theorem rehash_region :
    (region (zeros hashLength)).rehash 3 (front ++ [13, 14]) 0xff = .ok (region digest, binary) := by
  decide +kernel

end Across

/-- The region starts before the end of the binary and ends behind it; a second run, and another
digest and other bytes in its place, leave the result alone. -/
theorem rehash_sets_digest_across :
    Rehashed (Across.region (zeros hashLength)) 3 (Across.front ++ [13, 14]) 0xff
      (Across.region Across.digest) Across.binary ∧
    (Across.region Across.digest).rehash 3 Across.binary 0 =
      .ok (Across.region Across.digest, Across.binary) ∧
    (Across.region Across.digest).rehash 3 (Across.front ++ [0x55]) 0xff =
      .ok (Across.region Across.digest, Across.binary) := by
  obtain ⟨hrehashed, hagain, hother⟩ := (rehash_sets_digest (Across.region (zeros hashLength)) 3
    (Across.front ++ [13, 14]) 0xff).2 _ _ Across.rehash_region
  refine ⟨hrehashed, hagain 0, hother Across.digest (Across.front ++ [0x55]) rfl ?_⟩
  rintro i (hi | hi)
  · rw [List.getElem?_append_left hi, List.getElem?_append_left hi]
  · have hsize : 52 ≤ i := hi
    rw [List.getElem?_eq_none, List.getElem?_eq_none]
    · exact Nat.le_trans (by decide) hsize
    · exact Nat.le_trans (by decide) hsize

end Firmware.Meta
