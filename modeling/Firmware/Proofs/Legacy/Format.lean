import Firmware.Legacy.Format
import Firmware.Proofs.Content
import Firmware.Proofs.Tlv

/-!
# One file for every legacy image, one legacy image for every file

`parse_iff_toBytes` : parsing a file yields a legacy image exactly when writing that image yields
that file.  As in the newer format, what joins the two programs is `Denotes`: a file holds an image
if it is the header, the padding, the body and the values, in this order and with nothing else, and
if the header declares the sizes of all three.

    parse data = .ok img  ↔  Denotes img data  ↔  img.toBytes = .ok data

There is no trailer.  The size of the values stands in the header, where the parser compares it with
what is left of the file before the first value is read, and the writer with the values themselves.
The writer never corrects it: an image that declares another size is not written at all.
-/

namespace Firmware.Legacy

/-! ## Reading -/

/-- The header behind its magic number is read as it is written, whatever follows. -/
theorem Header.read?_eq_some_iff {bs rest : Bytes} {h : Header} :
    Header.read? bs = some (magic, h, rest) ↔ bs = h.toBytes ++ rest := by
  obtain ⟨tlvSize, keyId, pad1, headerSize, pad2, bodySize, flags, ⟨major, minor, revision, build⟩,
    pad3⟩ := h
  -- From the first field on: the fields behind it are not gone over while it is opened.
  dsimp only [Header.read?, Option.bind_eq_bind]
  simp only [↓Option.bind_eq_some_iff, ↓Prod.exists, Bytes.readU32_eq_some_iff,
    Bytes.readU16_eq_some_iff, Bytes.readU8_eq_some_iff]
  constructor
  · rintro ⟨m, _, rfl, ts, _, rfl, ki, _, rfl, p1, _, rfl, hs, _, rfl, p2, _, rfl, bz, _, rfl, fl,
      _, rfl, ma, _, rfl, mi, _, rfl, rv, _, rfl, bd, _, rfl, p3, _, rfl, h⟩
    cases h
    simp [Header.toBytes]
  · rintro rfl
    refine ⟨magic, _, ?_, tlvSize, _, rfl, keyId, _, rfl, pad1, _, rfl, headerSize, _, rfl, pad2, _,
      rfl, bodySize, _, rfl, flags, _, rfl, major, _, rfl, minor, _, rfl, revision, _, rfl, build,
      _, rfl, pad3, _, rfl, rfl⟩
    simp [Header.toBytes]

/-- Values whose size stands in a header field fit their own length fields. -/
theorem fits_of_declared {declared : UInt16} {tlvs : List Tlv}
    (h : declared.toNat = Tlv.areaSize tlvs) : ∀ t ∈ tlvs, t.Fits := by
  intro t ht
  exact Tlv.fits_of_areaSize_lt ht (h ▸ declared.toNat_lt)

theorem readTlvs_eq_ok_iff {declared : UInt16} {area : Bytes} {tlvs : List Tlv} :
    readTlvs declared area = .ok tlvs ↔
      declared.toNat = Tlv.areaSize tlvs ∧ area = tlvs.flatMap Tlv.toBytes := by
  constructor
  · intro h
    unfold readTlvs at h
    obtain ⟨hdeclared, h⟩ := else_eq_ok_iff.mp h
    have hlength := Decidable.not_not.mp hdeclared
    split at h
    · cases h
    · rename_i ts hts
      cases h
      obtain ⟨rfl, -⟩ := Tlv.readAll_eq_ok_iff.mp hts
      rw [Tlv.length_flatMap_toBytes] at hlength
      exact ⟨hlength, rfl⟩
  · rintro ⟨hdeclared, rfl⟩
    have hread : Tlv.readAll (tlvs.flatMap Tlv.toBytes) = .ok tlvs :=
      Tlv.readAll_eq_ok_iff.mpr ⟨rfl, fits_of_declared hdeclared⟩
    rw [readTlvs, Tlv.length_flatMap_toBytes, if_neg (not_not_intro hdeclared), hread]

/-- A file that holds a legacy image. -/
structure Denotes (img : Legacy) (data : Bytes) : Prop where
  content : Content.Fits img.header.headerSize img.header.bodySize img.pad img.body
  tlvs : img.header.tlvSize.toNat = img.tlvSize
  eq : data = img.header.toBytes ++ (img.pad ++ img.body ++ img.tlvs.flatMap Tlv.toBytes)

theorem parse_eq_ok_iff_denotes {data : Bytes} {img : Legacy} :
    parse data = .ok img ↔ Denotes img data := by
  constructor
  · intro h
    unfold parse at h
    split at h
    · cases h
    · rename_i found header rest hheader
      rw [else_eq_ok_iff] at h
      obtain ⟨hmagic, h⟩ := h
      obtain rfl := Decidable.not_not.mp hmagic
      obtain rfl := Header.read?_eq_some_iff.mp hheader
      split at h
      · cases h
      · rename_i pad body area hsplit
        obtain ⟨hcontent, rfl⟩ := Content.split_eq_ok_iff.mp hsplit
        split at h
        · cases h
        · rename_i tlvs htlvs
          obtain ⟨hsize, rfl⟩ := readTlvs_eq_ok_iff.mp htlvs
          cases h
          exact ⟨hcontent, hsize, rfl⟩
  · rintro ⟨hcontent, hsize, rfl⟩
    obtain ⟨header, pad, body, tlvs⟩ := img
    have hheader : Header.read? (header.toBytes ++ (pad ++ body ++ tlvs.flatMap Tlv.toBytes)) =
        some (magic, header, pad ++ body ++ tlvs.flatMap Tlv.toBytes) :=
      Header.read?_eq_some_iff.mpr rfl
    have hsplit : ∀ available,
        Content.split header.headerSize header.bodySize available
          (pad ++ body ++ tlvs.flatMap Tlv.toBytes) = .ok (pad, body, tlvs.flatMap Tlv.toBytes) :=
      fun _ => Content.split_eq_ok_iff.mpr ⟨hcontent, rfl⟩
    have htlvs : readTlvs header.tlvSize (tlvs.flatMap Tlv.toBytes) = .ok tlvs :=
      readTlvs_eq_ok_iff.mpr ⟨hsize, rfl⟩
    simp only [parse, hheader, ne_eq, not_true_eq_false, if_false, hsplit, htlvs]

/-! ## Writing -/

theorem validate_eq_ok_iff {img : Legacy} :
    img.validate = .ok () ↔
      Content.Fits img.header.headerSize img.header.bodySize img.pad img.body ∧
        img.header.tlvSize.toNat = img.tlvSize := by
  unfold validate
  split
  · rename_i e he
    constructor
    · intro h
      cases h
    · rintro ⟨hcontent, -⟩
      rw [Content.check_eq_ok_iff.mpr hcontent] at he
      cases he
  · rename_i hcheck
    have hcontent := Content.check_eq_ok_iff.mp hcheck
    rw [else_eq_ok_iff, else_eq_ok_iff]
    constructor
    · rintro ⟨-, hsame, -⟩
      exact ⟨hcontent, (Decidable.not_not.mp hsame).symm⟩
    · rintro ⟨-, hsize⟩
      have hlt := img.header.tlvSize.toNat_lt
      rw [hsize] at hlt
      exact ⟨Nat.not_le_of_lt hlt, not_not_intro hsize.symm, rfl⟩

theorem toBytes_eq_ok_iff_denotes {data : Bytes} {img : Legacy} :
    img.toBytes = .ok data ↔ Denotes img data := by
  unfold toBytes script
  cases hvalid : img.validate with
  | error e =>
      constructor
      · intro h
        cases h
      · rintro ⟨hcontent, hsize, -⟩
        rw [validate_eq_ok_iff.mpr ⟨hcontent, hsize⟩] at hvalid
        cases hvalid
  | ok u =>
      obtain ⟨hcontent, hsize⟩ := validate_eq_ok_iff.mp hvalid
      rw [Script.toBytes_prepend_eq_ok_iff]
      constructor
      · rintro ⟨area, harea, rfl⟩
        obtain ⟨rfl, -⟩ :=
          Tlv.toBytes_script_eq_ok_iff.mp (Script.toBytes_map_eq_ok_iff.mp harea)
        exact ⟨hcontent, hsize, by simp⟩
      · rintro ⟨-, -, rfl⟩
        refine ⟨img.tlvs.flatMap Tlv.toBytes, ?_, by simp⟩
        rw [Script.toBytes_map_eq_ok_iff, Tlv.toBytes_script_eq_ok_iff]
        exact ⟨rfl, fits_of_declared hsize⟩

/-- Nothing is written of an image that is not valid, to whatever store. -/
theorem writeTo_of_validate {img : Legacy} {e : Error} (h : img.validate = .error e) (t : Tally) :
    img.writeTo t = (t, .error e) := by
  rw [writeTo, script, h]
  rfl

/-! ## Both -/

/-- Files and legacy images determine each other.  An image that declares another size of its values
than they have belongs to no file, and nothing of it is ever written. -/
theorem parse_iff_toBytes (data : Bytes) (img : Legacy) :
    (parse data = .ok img ↔ img.toBytes = .ok data) ∧
      (parse data = .ok img ↔ Denotes img data) ∧
      (img.header.tlvSize.toNat ≠ img.tlvSize →
        ∃ e, img.toBytes = .error e ∧ ∀ t, img.writeTo t = (t, .error e)) := by
  refine ⟨?_, parse_eq_ok_iff_denotes, ?_⟩
  · rw [parse_eq_ok_iff_denotes, toBytes_eq_ok_iff_denotes]
  · intro hother
    cases hvalid : img.validate with
    | ok u => exact absurd (validate_eq_ok_iff.mp hvalid).2 hother
    | error e =>
        refine ⟨e, ?_, writeTo_of_validate hvalid⟩
        rw [toBytes, script, hvalid]
        rfl

end Firmware.Legacy
