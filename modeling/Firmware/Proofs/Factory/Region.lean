import Firmware.Factory.Region
import Firmware.Proofs.Meta.Digest

/-!
# Binaries that carry a region

`Carries data m offset` says that the bytes of the region `m` stand at `offset` in a binary.  By
`parse_eq_ok_iff` reading a factory binary finds exactly the regions that the binary carries, and by
`carries_of_rehash` a binary with a new digest carries the region with this digest.

Putting a region into a binary that carries it changes nothing (`Carries.splice_eq`).  So the digest
of such a binary needs no splicing (`Carries.freshDigest_eq`), a new one changes nothing but the
digest bytes (`sameButDigest_of_rehash`), and `Carries.isCurrent_eq` says which stored digests are up
to date.
-/

namespace Firmware.Factory

open Bytes (slice zeros)
open Meta (hashLength splice)

/-- The binary has the bytes of the region at an offset. -/
structure Carries (data : Bytes) (m : Meta) (offset : Nat) : Prop where
  sound : m.Sound
  inside : offset + m.size ≤ data.length
  place : slice data offset (offset + m.size) = m.bytes

namespace Carries

variable {data digest : Bytes} {m : Meta} {offset : Nat}

theorem splice_eq (h : Carries data m offset) (erase : UInt8) :
    splice data offset erase m.bytes = data := by
  have hlong : offset ≤ data.length := Nat.le_trans (Nat.le_add_right _ _) h.inside
  have hfront : Bytes.resize offset erase data = data.take offset := by
    rw [Bytes.resize, Nat.sub_eq_zero_of_le hlong, List.replicate_zero, List.append_nil]
  have hcut := Bytes.take_append_slice_append_drop data offset (offset + m.size)
    (Nat.le_add_right _ _)
  rwa [h.place, ← hfront, ← Meta.length_bytes, ← Meta.splice_eq] at hcut

/-- The digest of a binary that carries its region. -/
theorem freshDigest_eq (h : Carries data m offset) (hdigest : m.HasDigest digest)
    (erase : UInt8) : m.freshDigest offset data erase = m.digestOf offset data := by
  have hsplice : splice data offset erase (m.withDigest digest).bytes = data := by
    rw [hdigest.withDigest_self, h.splice_eq]
  rw [← hdigest.digestOf_splice hdigest.length, hsplice]

/-- The stored digest is up to date if it is that of the binary with zeros in its place. -/
theorem isCurrent_eq (h : Carries data m offset) (hdigest : m.HasDigest digest) :
    m.isCurrent offset data = .ok (m.digestOf offset data == digest) := by
  have hrehash := Meta.rehash_eq_ok_iff.mpr
    ⟨⟨digest, hdigest⟩, h.sound.toWritable, (rfl : (_, splice data offset 0xff _) = _)⟩
  have hfresh : (m.withDigest (m.freshDigest offset data 0xff)).hash =
      .ok (m.freshDigest offset data 0xff) :=
    Meta.hash_eq_ok_iff.mpr (hdigest.withDigest Meta.length_freshDigest)
  have hstored := Meta.hash_eq_ok_iff.mpr hdigest
  rw [Meta.isCurrent, hrehash]
  simp only [bind, Except.bind, hfresh, hstored]
  rw [h.freshDigest_eq hdigest]
  rfl

end Carries

variable {data : Bytes} {stop : Nat} {f f' : Factory} {m : Meta} {erase : UInt8}

/-- Reading finds the regions that a binary carries before an offset. -/
theorem parse_eq_ok_iff :
    parse data (some stop) = .ok f ↔
      ∃ m offset, Carries data m offset ∧ offset + m.size = stop ∧ f = ⟨data, some m, offset⟩ := by
  have hslice : ∀ {start}, slice data start stop = (data.take stop).drop start := by
    intro start
    rw [slice, List.drop_take]
  simp only [parse]
  split
  · rename_i hlong
    constructor
    · intro h
      cases h
    · rintro ⟨m, offset, h, rfl, -⟩
      exact absurd h.inside (Nat.not_le_of_lt hlong)
  · rename_i hinside
    have hlength : (data.take stop).length = stop := by
      rw [List.length_take]
      omega
    constructor
    · intro h
      split at h
      · cases h
      · rename_i m offset hparse
        cases h
        obtain ⟨hsound, front, hfront, rfl⟩ := Meta.parse_eq_ok_iff.mp hparse
        have hstop : front.length + m.size = stop := by
          rw [← Meta.length_bytes, ← List.length_append, ← hfront, hlength]
        refine ⟨m, front.length, ⟨hsound, ?_, ?_⟩, hstop, rfl⟩
        · rw [hstop]
          exact Nat.le_of_not_lt hinside
        · rw [hstop, hslice, hfront, List.drop_left]
    · rintro ⟨m, offset, h, rfl, rfl⟩
      have hoffset : offset ≤ data.length := Nat.le_trans (Nat.le_add_right _ _) h.inside
      have hfront : data.take (offset + m.size) = data.take offset ++ m.bytes := by
        rw [← h.place, hslice]
        conv_lhs => rw [← List.take_append_drop offset (data.take (offset + m.size))]
        rw [List.take_take, Nat.min_eq_left (Nat.le_add_right _ _)]
      have hparse : Meta.parse (data.take (offset + m.size)) = .ok (m, offset) :=
        Meta.parse_eq_ok_iff.mpr ⟨h.sound, data.take offset, hfront, by
          rw [List.length_take, Nat.min_eq_left hoffset]⟩
      rw [hparse]

/-- A region that the binary carries is put back where it is. -/
theorem toBytes_of_carries (hregion : f.region = some m) (h : Carries f.binary m f.offset)
    (erase : UInt8) : f.toBytes erase = .ok f.binary := by
  have hbytes := Meta.toBytes_eq_ok_iff.mpr ⟨h.sound.toWritable, rfl⟩
  simp only [toBytes, hregion, hbytes, h.splice_eq]

theorem rehash_eq_ok_iff (hregion : f.region = some m) :
    f.rehash erase = .ok f' ↔
      (∃ digest, m.HasDigest digest) ∧ m.Writable ∧
        f' =
          { f with
            binary := splice f.binary f.offset erase
              (m.withDigest (m.freshDigest f.offset f.binary erase)).bytes
            region := some (m.withDigest (m.freshDigest f.offset f.binary erase)) } := by
  simp only [rehash, hregion]
  constructor
  · intro h
    split at h
    · cases h
    · rename_i fresh binary hr
      cases h
      obtain ⟨hdigest, hwritable, hresult⟩ := Meta.rehash_eq_ok_iff.mp hr
      obtain ⟨rfl, rfl⟩ := Prod.mk.inj hresult
      exact ⟨hdigest, hwritable, rfl⟩
  · rintro ⟨hdigest, hwritable, rfl⟩
    rw [Meta.rehash_eq_ok_iff.mpr ⟨hdigest, hwritable, rfl⟩]

/-- A binary with a new digest carries the region with this digest, and the digest is that of the
binary with zeros in its place. -/
theorem carries_of_rehash {digest : Bytes} (hregion : f.region = some m) (hsound : m.Sound)
    (hdigest : m.HasDigest digest) (h : f.rehash erase = .ok f') :
    f'.region = some (m.withDigest (m.digestOf f'.offset f'.binary)) ∧ f'.offset = f.offset ∧
      Carries f'.binary (m.withDigest (m.digestOf f'.offset f'.binary)) f'.offset := by
  obtain ⟨-, -, rfl⟩ := (rehash_eq_ok_iff hregion).mp h
  have hlength : (m.freshDigest f.offset f.binary erase).length = hashLength :=
    Meta.length_freshDigest
  have hsize := hdigest.size_withDigest hlength
  have hdigestOf : m.digestOf f.offset (splice f.binary f.offset erase
      (m.withDigest (m.freshDigest f.offset f.binary erase)).bytes) =
        m.freshDigest f.offset f.binary erase := hdigest.digestOf_splice hlength
  dsimp only
  rw [hdigestOf]
  refine ⟨rfl, rfl, hdigest.sound_withDigest hsound hlength, ?_, ?_⟩
  · rw [Meta.length_splice, Meta.length_bytes]
    exact Nat.le_max_right _ _
  · rw [← Meta.length_bytes, Meta.slice_splice]

/-- A factory binary that is read back as it is, that is written as it is, and whose region has the
digest of the binary with zeros in its place. -/
structure InStep (stop : Nat) (f : Factory) : Prop where
  parse : Factory.parse f.binary (some stop) = .ok f
  toBytes : ∀ erase, f.toBytes erase = .ok f.binary
  hash : ∃ m, f.region = some m ∧ f.hash = .ok (m.digestOf f.offset f.binary)

theorem inStep_of_rehash {digest : Bytes} (hregion : f.region = some m) (hsound : m.Sound)
    (hdigest : m.HasDigest digest) (h : f.rehash erase = .ok f') : InStep (f.offset + m.size) f' := by
  obtain ⟨hregion', hoffset, hcarries⟩ := carries_of_rehash hregion hsound hdigest h
  have hfresh := hdigest.withDigest (Meta.length_digestOf : (m.digestOf f'.offset f'.binary).length = _)
  refine ⟨?_, toBytes_of_carries hregion' hcarries, _, hregion', ?_⟩
  · refine parse_eq_ok_iff.mpr ⟨_, _, hcarries, ?_, ?_⟩
    · rw [hdigest.size_withDigest Meta.length_digestOf, hoffset]
    · rw [← hregion']
  · simp only [hash, hregion', Meta.hash_eq_ok_iff.mpr hfresh, hdigest.digestOf_withDigest]

/-- Binaries that differ at most in the digest bytes of a region. -/
structure SameButDigest (m : Meta) (offset : Nat) (before after : Bytes) : Prop where
  length : after.length = before.length
  outside : ∀ i, i < offset + m.digestOffset ∨ offset + m.digestOffset + hashLength ≤ i →
    after[i]? = before[i]?

/-- A new digest is written over the one that the binary carries. -/
theorem sameButDigest_of_rehash (hregion : f.region = some m) (hcarries : Carries f.binary m f.offset)
    (h : f.rehash erase = .ok f') : SameButDigest m f.offset f.binary f'.binary := by
  obtain ⟨⟨digest, hdigest⟩, -, rfl⟩ := (rehash_eq_ok_iff hregion).mp h
  have hlength : (m.freshDigest f.offset f.binary erase).length = hashLength :=
    Meta.length_freshDigest
  have hinside : m.digestOffset + (m.freshDigest f.offset f.binary erase).length ≤ m.size := by
    rw [hlength]
    exact hdigest.digestOffset_add_le
  have hplace : f.offset + m.digestOffset + (m.freshDigest f.offset f.binary erase).length ≤
      f.binary.length := by
    rw [Nat.add_assoc]
    exact Nat.le_trans (Nat.add_le_add_left hinside _) hcarries.inside
  have hwrite : splice f.binary f.offset erase
      (m.withDigest (m.freshDigest f.offset f.binary erase)).bytes =
        Bytes.overwrite f.binary (f.offset + m.digestOffset)
          (m.freshDigest f.offset f.binary erase) := by
    rw [← hdigest.overwrite_bytes hlength, ← Meta.overwrite_splice, hcarries.splice_eq]
    rwa [Meta.length_bytes]
  dsimp only
  rw [hwrite]
  constructor
  · exact Bytes.length_overwrite hplace
  · intro i hi
    exact Bytes.getElem?_overwrite_of_outside hplace (by rwa [hlength])

end Firmware.Factory
