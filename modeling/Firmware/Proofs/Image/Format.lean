import Firmware.Image.Format
import Firmware.Proofs.Content
import Firmware.Proofs.Tlv

/-!
# One file for every image, one image for every file

`parse_eq_ok_iff_toBytes_eq_ok` : parsing a file yields an image exactly when writing that image
yields that file.  The two programs look at different things.  The parser compares the trailer's
length with what is left of the file and reads the values before it does so; the writer computes
that length from the values.  What joins them is `Denotes`: the sizes in the header are those of the
padding and the body, the area fits its 16-bit length, and the file is the header, the padding, the
body, the trailer and the values, in this order and with nothing else.

    parse data = .ok img  ↔  Denotes img data  ↔  img.toBytes = .ok data

Every byte of a file is thus kept: the padding, the three pads, the flag bits without a name, and
the pad byte of every value.
-/

namespace Firmware.Image

/-! ## The header -/

/-- The header behind its magic number is read as it is written, whatever follows. -/
theorem Header.read?_eq_some_iff {bs rest : Bytes} {h : Header} :
    Header.read? bs = some (magic, h, rest) ↔ bs = h.toBytes ++ rest := by
  obtain ⟨headerSize, bodySize, flags, ⟨major, minor, revision, build⟩, pad1, pad2, pad3⟩ := h
  simp only [Header.read?, Option.bind_eq_bind, Option.bind_eq_some_iff, Prod.exists,
    Bytes.readU32_eq_some_iff, Bytes.readU16_eq_some_iff, Bytes.readU8_eq_some_iff]
  constructor
  · rintro ⟨m, _, rfl, p1, _, rfl, hs, _, rfl, p2, _, rfl, bz, _, rfl, fl, _, rfl, ma, _, rfl,
      mi, _, rfl, rv, _, rfl, bd, _, rfl, p3, _, rfl, h⟩
    cases h
    simp [Header.toBytes]
  · rintro rfl
    refine ⟨magic, _, ?_, pad1, _, rfl, headerSize, _, rfl, pad2, _, rfl, bodySize, _, rfl, flags,
      _, rfl, major, _, rfl, minor, _, rfl, revision, _, rfl, build, _, rfl, pad3, _, rfl, rfl⟩
    simp [Header.toBytes]

/-! ## The trailer -/

/-- The size of trailer and values fits the trailer's field. -/
def TlvsFit (tlvs : List Tlv) : Prop := trailerLength + Tlv.areaSize tlvs < UInt16.size

/-- The trailer and the values behind it. -/
def tlvBytes (tlvs : List Tlv) : Bytes :=
  Bytes.ofU16 trailerMagic ++ Bytes.ofNatLE 2 (trailerLength + Tlv.areaSize tlvs) ++
    tlvs.flatMap Tlv.toBytes

theorem TlvsFit.fits {tlvs : List Tlv} (h : TlvsFit tlvs) : ∀ t ∈ tlvs, t.Fits :=
  fun _ ht => Tlv.fits_of_areaSize_lt ht (Nat.lt_of_le_of_lt (Nat.le_add_left _ _) h)

theorem readTrailer?_eq_some_iff {bs rest : Bytes} {magic total : UInt16} :
    readTrailer? bs = some (magic, total, rest) ↔
      bs = Bytes.ofU16 magic ++ (Bytes.ofU16 total ++ rest) := by
  simp only [readTrailer?, Option.bind_eq_bind, Option.bind_eq_some_iff, Prod.exists,
    Bytes.readU16_eq_some_iff]
  constructor
  · rintro ⟨m, _, rfl, t, _, rfl, h⟩
    cases h
    rfl
  · rintro rfl
    exact ⟨magic, _, rfl, total, _, rfl, rfl⟩

theorem ofU16_eq_ofNatLE {x : UInt16} {n : Nat} (h : x.toNat = n) :
    Bytes.ofU16 x = Bytes.ofNatLE 2 n := by
  rw [Bytes.ofU16, h]

theorem readTlvs_eq_ok_iff {bs : Bytes} {tlvs : List Tlv} :
    readTlvs bs = .ok tlvs ↔ TlvsFit tlvs ∧ bs = tlvBytes tlvs := by
  constructor
  · intro h
    unfold readTlvs at h
    split at h
    · cases h
    · rename_i found total area htrailer
      obtain rfl := readTrailer?_eq_some_iff.mp htrailer
      rw [else_eq_ok_iff] at h
      obtain ⟨hmagic, h⟩ := h
      obtain rfl := Decidable.not_not.mp hmagic
      split at h
      · cases h
      · rename_i ts hts
        obtain ⟨rfl, -⟩ := Tlv.readAll_eq_ok_iff.mp hts
        rw [Tlv.length_flatMap_toBytes, then_eq_ok_iff] at h
        obtain ⟨htotal, h⟩ := h
        cases h
        refine ⟨Nat.lt_of_le_of_lt (Nat.le_of_eq htotal.symm) total.toNat_lt, ?_⟩
        rw [ofU16_eq_ofNatLE htotal, tlvBytes, List.append_assoc]
  · rintro ⟨hfit, rfl⟩
    have htotal : (UInt16.ofNat (trailerLength + Tlv.areaSize tlvs)).toNat =
        trailerLength + Tlv.areaSize tlvs := UInt16.toNat_ofNat_of_lt' hfit
    have htrailer : readTrailer? (tlvBytes tlvs) =
        some (trailerMagic, UInt16.ofNat (trailerLength + Tlv.areaSize tlvs),
          tlvs.flatMap Tlv.toBytes) := by
      rw [readTrailer?_eq_some_iff, ofU16_eq_ofNatLE htotal, tlvBytes, List.append_assoc]
    have hread : Tlv.readAll (tlvs.flatMap Tlv.toBytes) = .ok tlvs :=
      Tlv.readAll_eq_ok_iff.mpr ⟨rfl, hfit.fits⟩
    simp only [readTlvs, htrailer, ne_eq, not_true_eq_false, if_false, hread,
      Tlv.length_flatMap_toBytes, htotal, if_true]

/-! ## The whole file -/

/-- A file that holds an image. -/
structure Denotes (img : Image) (data : Bytes) : Prop where
  content : Content.Fits img.header.headerSize img.header.bodySize img.pad img.body
  tlvs : TlvsFit img.tlvs
  eq : data = img.header.toBytes ++ (img.pad ++ img.body ++ tlvBytes img.tlvs)

theorem parse_eq_ok_iff_denotes {data : Bytes} {img : Image} :
    parse data = .ok img ↔ Denotes img data := by
  constructor
  · intro h
    unfold parse at h
    split at h
    · cases h
    · rename_i found header rest hheader
      rw [else_eq_ok_iff] at h
      obtain ⟨hmagic, h⟩ := h
      obtain rfl := Decidable.not_not.mp hmagic
      obtain rfl := Header.read?_eq_some_iff.mp hheader
      split at h
      · cases h
      · rename_i pad body area hsplit
        obtain ⟨hcontent, rfl⟩ := Content.split_eq_ok_iff.mp hsplit
        split at h
        · cases h
        · rename_i tlvs htlvs
          obtain ⟨hfit, rfl⟩ := readTlvs_eq_ok_iff.mp htlvs
          cases h
          exact ⟨hcontent, hfit, rfl⟩
  · rintro ⟨hcontent, hfit, rfl⟩
    obtain ⟨header, pad, body, tlvs⟩ := img
    have hheader : Header.read? (header.toBytes ++ (pad ++ body ++ tlvBytes tlvs)) =
        some (magic, header, pad ++ body ++ tlvBytes tlvs) := Header.read?_eq_some_iff.mpr rfl
    have hsplit : ∀ available,
        Content.split header.headerSize header.bodySize available (pad ++ body ++ tlvBytes tlvs) =
          .ok (pad, body, tlvBytes tlvs) :=
      fun _ => Content.split_eq_ok_iff.mpr ⟨hcontent, rfl⟩
    have htlvs : readTlvs (tlvBytes tlvs) = .ok tlvs := readTlvs_eq_ok_iff.mpr ⟨hfit, rfl⟩
    simp only [parse, hheader, ne_eq, not_true_eq_false, if_false, hsplit, htlvs]

theorem validate_eq_ok_iff {img : Image} :
    img.validate = .ok () ↔
      Content.Fits img.header.headerSize img.header.bodySize img.pad img.body ∧
        TlvsFit img.tlvs := by
  unfold validate
  split
  · rename_i e he
    constructor
    · intro h
      cases h
    · rintro ⟨hcontent, -⟩
      rw [Content.check_eq_ok_iff.mpr hcontent] at he
      cases he
  · rename_i hcheck
    have hcontent := Content.check_eq_ok_iff.mp hcheck
    rw [then_eq_ok_iff]
    exact ⟨fun h => ⟨hcontent, h.1⟩, fun h => ⟨h.2, rfl⟩⟩

/-- With sizes that are right, only the size of the area can keep an image from being written. -/
theorem toBytes_eq_error_of_fits {img : Image}
    (hcontent : Content.Fits img.header.headerSize img.header.bodySize img.pad img.body)
    (hlarge : UInt16.size ≤ img.tlvTotalSize) :
    img.toBytes = .error (.tlvTotalTooLarge img.tlvTotalSize) := by
  have hvalid : img.validate = .error (.tlvTotalTooLarge img.tlvTotalSize) := by
    unfold validate
    rw [Content.check_eq_ok_iff.mpr hcontent]
    exact if_neg (Nat.not_lt_of_le hlarge)
  unfold toBytes script
  rw [hvalid]
  rfl

theorem toBytes_eq_ok_iff_denotes {data : Bytes} {img : Image} :
    img.toBytes = .ok data ↔ Denotes img data := by
  unfold toBytes script
  cases hvalid : img.validate with
  | error e =>
      constructor
      · intro h
        cases h
      · rintro ⟨hcontent, hfit, -⟩
        rw [validate_eq_ok_iff.mpr ⟨hcontent, hfit⟩] at hvalid
        cases hvalid
  | ok u =>
      obtain ⟨hcontent, hfit⟩ := validate_eq_ok_iff.mp hvalid
      rw [Script.toBytes_prepend_eq_ok_iff]
      constructor
      · rintro ⟨area, harea, rfl⟩
        obtain ⟨rfl, -⟩ :=
          Tlv.toBytes_script_eq_ok_iff.mp (Script.toBytes_map_eq_ok_iff.mp harea)
        exact ⟨hcontent, hfit, by simp [tlvBytes, trailerBytes, tlvTotalSize]⟩
      · rintro ⟨-, -, rfl⟩
        refine ⟨img.tlvs.flatMap Tlv.toBytes, ?_, ?_⟩
        · rw [Script.toBytes_map_eq_ok_iff, Tlv.toBytes_script_eq_ok_iff]
          exact ⟨rfl, hfit.fits⟩
        · simp [tlvBytes, trailerBytes, tlvTotalSize]

theorem Denotes.length_eq {data : Bytes} {img : Image} (h : Denotes img data) :
    data.length = img.totalSize := by
  rw [h.eq, totalSize, tlvTotalSize, tlvBytes]
  simp only [List.length_append, Header.length_toBytes, Bytes.length_ofU16, Bytes.length_ofNatLE,
    Tlv.length_flatMap_toBytes, trailerLength]
  omega

/-- Files and images determine each other, and the size of a file is computed from its image. -/
theorem parse_eq_ok_iff_toBytes_eq_ok (data : Bytes) (img : Image) :
    (parse data = .ok img ↔ img.toBytes = .ok data) ∧
      (parse data = .ok img → data.length = img.totalSize) := by
  constructor
  · rw [parse_eq_ok_iff_denotes, toBytes_eq_ok_iff_denotes]
  · intro h
    exact (parse_eq_ok_iff_denotes.mp h).length_eq

end Firmware.Image
