import Firmware.Proofs.Checked.Factory
import Firmware.Proofs.Checked.Image

/-!
# No input is out of bounds

`inBounds_of_any_input` : the readers of images of both formats and of factory binaries, what is
asked of the results, and the splitting of a binary meet no fault, whatever they are given.  Each of
them comes to what the function on lists comes to, so everything that is known about those functions
holds of the ones with checked accesses.

What comes after a reader is shown for every image, region and factory binary, and not only for
those that a reader yields.  A digest is different: for a region that was made in another way it may
fail because the region is too large, and the binary may grow.  For a region that was read at the
end of a binary, it fails only for lack of one value of 32 bytes to put it in, and the binary keeps
its size.
-/

namespace Firmware.Checked

/-- No data makes a reader, what is asked of its results, or the splitting of a binary break a
demand of an access.  In a region at the end of the data the digest can be missing, be one of
several or have the wrong size; with a new one the data keeps its length. -/
theorem inBounds_of_any_input :
    (∀ data, InBounds (parseImage data) (Image.parse data)) ∧
    (∀ img : Image, violations img.tlvs = .ok (Image.violations img.tlvs) ∧
      (∀ initial, contentHash initial img.header.toBytes img.pad img.body =
        .ok (img.contentHash initial)) ∧
      InBounds (imageToBytes img) img.toBytes) ∧
    (∀ data, InBounds (parseLegacy data) (Legacy.parse data)) ∧
    (∀ img : Legacy, InBounds (legacyHash img) img.hash ∧
      ∀ initial, contentHash initial img.header.toBytes img.pad img.body =
        .ok (img.contentHash initial)) ∧
    (∀ data stop, InBounds (parseFactory data stop) (Factory.parse data stop)) ∧
    (∀ region, InBounds (flashAreas region) region.flashAreas ∧
      InBounds (refs region) region.refs) ∧
    (∀ (f : Factory) erase, InBounds (rehashFactory f erase) (f.rehash erase) ∧
      InBounds (factoryHash f) f.hash) ∧
    (∀ data device areas erase,
      InBounds (split data device areas erase) (Factory.split data device areas erase)) ∧
    ∀ data region start erase, Meta.parse data = .ok (region, start) →
      InBounds (rehashMeta region start data erase) (region.rehash start data erase) ∧
      (∀ e, region.rehash start data erase = .error e →
        (∃ name count, e = .tlvNotUnique name count) ∨ ∃ name len, e = .tlvInvalidSize name len) ∧
      ∀ fresh binary, region.rehash start data erase = .ok (fresh, binary) →
        binary.length = data.length := by
  refine ⟨inBounds_parseImage, fun img => ?_, inBounds_parseLegacy, fun img => ?_,
    inBounds_parseFactory, fun m => ?_, fun f erase => ?_, inBounds_split, ?_⟩
  · exact ⟨violations_eq_ok img.tlvs, fun _ => contentHash_eq_ok img.header.length_toBytes,
      inBounds_imageToBytes img⟩
  · exact ⟨inBounds_legacyHash img, fun _ => contentHash_eq_ok img.header.length_toBytes⟩
  · exact ⟨inBounds_flashAreas m, inBounds_refs m⟩
  · exact ⟨inBounds_rehashFactory f erase, inBounds_factoryHash f⟩
  · intro data region start erase hparse
    exact ⟨inBounds_rehashMeta region start data erase,
      fun _ => Meta.rehash_error_of_parse hparse,
      fun _ _ => Meta.length_of_rehash_of_parse hparse⟩

/-- A binary with a region at its end whose digest is still to be computed. -/
def blankBinary : Bytes :=
  Meta.Across.front ++ (Meta.Across.region (Bytes.zeros Meta.hashLength)).bytes

/-- A region without a digest. -/
def noDigest : Meta := ⟨[], ⟨8, Meta.currentVersion, 0xff⟩⟩

/-- One region gets its digest in a binary of the same size, and another one has no place for it. -/
theorem inBounds_of_any_input_across :
    (Meta.parse blankBinary = .ok (Meta.Across.region (Bytes.zeros Meta.hashLength), 3) ∧
      (Meta.Across.region (Bytes.zeros Meta.hashLength)).rehash 3 blankBinary 0xff =
        .ok (Meta.Across.region Meta.Across.digest, Meta.Across.binary) ∧
      Meta.Across.binary.length = blankBinary.length) ∧
    Meta.parse noDigest.bytes = .ok (noDigest, 0) ∧
      noDigest.rehash 0 noDigest.bytes 0xff = .error (.tlvNotUnique "HASH" 0) ∧
      ((∃ name count, Meta.Error.tlvNotUnique "HASH" 0 = .tlvNotUnique name count) ∨
        ∃ name len, Meta.Error.tlvNotUnique "HASH" 0 = .tlvInvalidSize name len) := by
  obtain ⟨-, -, -, -, -, -, -, -, hrehash⟩ := inBounds_of_any_input
  have hblank : (Meta.Across.region (Bytes.zeros Meta.hashLength)).Sound :=
    ⟨Meta.writable_iff.mpr (by decide), by decide⟩
  have hparse := hblank.parse_append Meta.Across.front
  have hfresh : (Meta.Across.region (Bytes.zeros Meta.hashLength)).rehash 3 blankBinary 0xff =
      .ok (Meta.Across.region Meta.Across.digest, Meta.Across.binary) := by
    refine Meta.rehash_withDigest Meta.Across.rehash_region Meta.length_blank ?_
    rintro i (hi | hi)
    · rw [blankBinary, List.getElem?_append_left hi, List.getElem?_append_left hi]
    · have hsize : 52 ≤ i := hi
      rw [List.getElem?_eq_none, List.getElem?_eq_none]
      · exact Nat.le_trans (by decide) hsize
      · exact Nat.le_trans (by decide) hsize
  have hnoDigest : noDigest.Sound := ⟨Meta.writable_iff.mpr (by decide), by decide⟩
  have hnone : noDigest.rehash 0 noDigest.bytes 0xff = .error (.tlvNotUnique "HASH" 0) := rfl
  refine ⟨⟨hparse, hfresh, ?_⟩, hnoDigest.parse_append [], hnone, ?_⟩
  · exact (hrehash _ _ _ _ hparse).2.2 _ _ hfresh
  · exact (hrehash _ _ _ _ (hnoDigest.parse_append [])).2.1 _ hnone

end Firmware.Checked
