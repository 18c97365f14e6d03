import Firmware.Proofs.Verify

/-!
# What the check of a legacy image establishes

Hash and signature of an image of the older format are one check.  `checkLegacy_none_eq_ok_iff` says
what it establishes without a key, and `checkLegacy_some_eq_ok_iff` what a key adds: the first value
with the tag of the key's signatures holds one that the key accepts, with the padding that the flags
tell.
-/

namespace Firmware.Verify

open Key (PublicKey)

variable {img : Legacy} {initial : Option Bytes}

/-! ## The content hash -/

theorem legacyHash_eq_ok_iff {hash : Bytes} :
    img.hash = .ok hash ↔
      ∃ t, img.tlvs.filter (·.tag = Legacy.sha256Tag) = [t] ∧ t.data = hash ∧
        hash.length = Content.hashLength := by
  unfold Legacy.hash
  constructor
  · intro h
    split at h
    · cases h
    · rename_i t ht
      obtain ⟨hlen, h⟩ := then_eq_ok_iff.mp h
      obtain rfl := Except.ok.inj h
      exact ⟨t, Tlv.findUnique_eq_ok_iff.mp ht, rfl, hlen⟩
  · rintro ⟨t, hfilter, rfl, hlen⟩
    rw [Tlv.findUnique_eq_ok_iff.mpr hfilter]
    exact if_pos hlen

/-- Without a key the check of a legacy image is that of its content hash. -/
theorem checkLegacy_none_eq_ok_iff :
    checkLegacy img initial none = .ok () ↔ img.hash = .ok (img.contentHash initial) := by
  simp only [checkLegacy, bind_eq_ok_iff, mapError_eq_ok_iff, compareHash_eq_ok_iff]
  constructor
  · rintro ⟨expected, hhash, -, rfl, -⟩
    exact hhash
  · intro h
    exact ⟨_, h, (), rfl, rfl⟩

/-! ## The signature -/

/-- Looking for a value while counting finds what looking for it finds. -/
theorem find?_zipIdx {ts : List Tlv} {p : Tlv → Bool} :
    (ts.zipIdx.find? fun (t, _) => p t).map (·.1) = ts.find? p := by
  conv_rhs => rw [← List.zipIdx_map_fst 0 ts, List.find?_map]
  rfl

/-- With a key, the first value with its tag must hold a signature that it accepts. -/
theorem checkLegacy_some_eq_ok_iff {key : PublicKey} :
    checkLegacy img initial (some key) = .ok () ↔
      img.hash = .ok (img.contentHash initial) ∧
        ∃ tag t, key.legacySignatureTag = .ok tag ∧ img.tlvs.find? (·.tag == tag) = some t ∧
          key.verifyLegacy (img.contentHash initial) t.data (legacyPadding img.header.flags) =
            .ok () := by
  simp only [checkLegacy, bind_eq_ok_iff, mapError_eq_ok_iff, compareHash_eq_ok_iff]
  constructor
  · rintro ⟨expected, hhash, -, rfl, tag, htag, h⟩
    split at h
    · cases h
    · rename_i t index hfound
      refine ⟨hhash, tag, t, htag, ?_, mapError_eq_ok_iff.mp h⟩
      rw [← find?_zipIdx, hfound]
      rfl
  · rintro ⟨hhash, tag, t, htag, hfound, hverify⟩
    refine ⟨_, hhash, (), rfl, tag, htag, ?_⟩
    rw [← find?_zipIdx, Option.map_eq_some_iff] at hfound
    obtain ⟨⟨_, index⟩, hfound, rfl⟩ := hfound
    rw [hfound]
    exact mapError_eq_ok_iff.mpr hverify

end Firmware.Verify
