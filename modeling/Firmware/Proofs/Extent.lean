import Firmware.Proofs.Image.Format
import Firmware.Proofs.Legacy.Format

/-!
# Files that are neither cut off nor too long

Neither format has a field with the size of the file, and in both the last values are read until the
data ends.  A file nevertheless tells its own size: the header declares the sizes of what is in front
of the values, and the size of the values stands in the header of a legacy image and, in the newer
format, in the trailer, at the place where the header puts it.  `extent?` computes the size from
these fields alone.

What makes this useful is that the fields lie within the file that they describe: more data behind
it does not change them (`TellsSize.append`), and in a file that is accepted they give the size of
all of it (`TellsSize.whole`).  Two accepted files of which one is the front of the other are
therefore the same: `TellsSize.eq_of_prefix`, for both formats in `not_both_parse`.
-/

namespace Firmware

/-- The size of the accepted files is computed from fields in them. -/
structure TellsSize (accepts : Bytes → Prop) (extent? : Bytes → Option Nat) : Prop where
  whole : ∀ {data}, accepts data → extent? data = some data.length
  append : ∀ {data n}, extent? data = some n → ∀ more, extent? (data ++ more) = some n

namespace TellsSize

variable {accepts : Bytes → Prop} {extent? : Bytes → Option Nat} {data other : Bytes}

/-- No accepted file is the front of another one. -/
theorem eq_of_prefix (h : TellsSize accepts extent?) (hdata : accepts data)
    (hother : accepts other) (hfront : data <+: other) : data = other := by
  obtain ⟨more, rfl⟩ := hfront
  have hsize : data.length = (data ++ more).length :=
    Option.some.inj ((h.append (h.whole hdata) more).symm.trans (h.whole hother))
  rw [List.length_append] at hsize
  have hnone : more.length = 0 := by omega
  rw [List.length_eq_zero_iff.mp hnone, List.append_nil]

theorem not_both (h : TellsSize accepts extent?) {more : Bytes} (hmore : more ≠ []) :
    ¬(accepts data ∧ accepts (data ++ more)) := by
  rintro ⟨hdata, hother⟩
  have hsame := h.eq_of_prefix hdata hother (List.prefix_append data more)
  exact hmore (List.append_right_eq_self.mp hsame.symm)

end TellsSize

/-! ## Boot images -/

namespace Image

/-- The size of a file as its header and the trailer behind its body declare it. -/
def extent? (data : Bytes) : Option Nat :=
  match Header.read? data with
  | none => none
  | some (found, header, _) =>
    if found = magic then
      let trailer := header.headerSize.toNat + header.bodySize.toNat
      (readTrailer? (data.drop trailer)).map fun (_, total, _) => trailer + total.toNat
    else none

/-- Where the fields stand that the size is computed from. -/
theorem extent?_eq_some_iff {data : Bytes} {n : Nat} :
    extent? data = some n ↔
      ∃ (header : Header) (rest : Bytes) (found total : UInt16) (area : Bytes),
        data = header.toBytes ++ rest ∧
          data.drop (header.headerSize.toNat + header.bodySize.toNat) =
            Bytes.ofU16 found ++ (Bytes.ofU16 total ++ area) ∧
          header.headerSize.toNat + header.bodySize.toNat + total.toNat = n := by
  constructor
  · intro h
    unfold extent? at h
    split at h
    · cases h
    · rename_i found header rest hheader
      split at h
      · rename_i hmagic
        obtain rfl := hmagic
        obtain ⟨⟨trailer, total, area⟩, htrailer, rfl⟩ := Option.map_eq_some_iff.mp h
        exact ⟨header, rest, trailer, total, area, Header.read?_eq_some_iff.mp hheader,
          readTrailer?_eq_some_iff.mp htrailer, rfl⟩
      · cases h
  · rintro ⟨header, rest, found, total, area, hheader, htrailer, rfl⟩
    have hread : Header.read? data = some (magic, header, rest) :=
      Header.read?_eq_some_iff.mpr hheader
    have hread' := readTrailer?_eq_some_iff.mpr htrailer
    simp only [extent?, hread, if_true, hread', Option.map_some]

theorem tellsSize : TellsSize (fun data => ∃ img, parse data = .ok img) extent? where
  whole := by
    rintro data ⟨img, hparse⟩
    have hdenotes := parse_eq_ok_iff_denotes.mp hparse
    have hpad := hdenotes.content.length_pad
    have hbody := hdenotes.content.length_body
    have hfront : (img.header.toBytes ++ img.pad ++ img.body).length =
        img.header.headerSize.toNat + img.header.bodySize.toNat := by
      rw [List.length_append, List.length_append, Header.length_toBytes]
      omega
    have htotal : (UInt16.ofNat img.tlvTotalSize).toNat = img.tlvTotalSize :=
      UInt16.toNat_ofNat_of_lt' hdenotes.tlvs
    rw [extent?_eq_some_iff]
    refine ⟨img.header, _, trailerMagic, UInt16.ofNat img.tlvTotalSize,
      img.tlvs.flatMap Tlv.toBytes, hdenotes.eq, ?_, ?_⟩
    · rw [hdenotes.eq, ← List.append_assoc, ← List.append_assoc, List.drop_left' hfront, tlvBytes,
        ofU16_eq_ofNatLE htotal, List.append_assoc]
      rfl
    · rw [hdenotes.length_eq, htotal, totalSize]
      omega
  append := by
    intro data n h more
    rw [extent?_eq_some_iff] at h ⊢
    obtain ⟨header, rest, found, total, area, rfl, htrailer, rfl⟩ := h
    have hplace : header.headerSize.toNat + header.bodySize.toNat ≤
        (header.toBytes ++ rest).length := by
      have hlength := congrArg List.length htrailer
      simp only [List.length_drop, List.length_append, Bytes.length_ofU16] at hlength ⊢
      omega
    refine ⟨header, rest ++ more, found, total, area ++ more, List.append_assoc _ _ _, ?_, rfl⟩
    rw [List.drop_append_of_le_length hplace, htrailer]
    simp only [List.append_assoc]

end Image

/-! ## Images of the older format -/

namespace Legacy

/-- The size of a file as its header declares it. -/
def extent? (data : Bytes) : Option Nat :=
  match Header.read? data with
  | none => none
  | some (found, header, _) =>
    if found = magic then
      some (header.headerSize.toNat + header.bodySize.toNat + header.tlvSize.toNat)
    else none

theorem extent?_eq_some_iff {data : Bytes} {n : Nat} :
    extent? data = some n ↔
      ∃ (header : Header) (rest : Bytes), data = header.toBytes ++ rest ∧
        header.headerSize.toNat + header.bodySize.toNat + header.tlvSize.toNat = n := by
  constructor
  · intro h
    unfold extent? at h
    split at h
    · cases h
    · rename_i found header rest hheader
      split at h
      · rename_i hmagic
        obtain rfl := hmagic
        exact ⟨header, rest, Header.read?_eq_some_iff.mp hheader, Option.some.inj h⟩
      · cases h
  · rintro ⟨header, rest, hheader, rfl⟩
    have hread : Header.read? data = some (magic, header, rest) :=
      Header.read?_eq_some_iff.mpr hheader
    simp only [extent?, hread, if_true]

theorem tellsSize : TellsSize (fun data => ∃ img, parse data = .ok img) extent? where
  whole := by
    rintro data ⟨img, hparse⟩
    obtain ⟨⟨hpad, hbody⟩, htlvs, rfl⟩ := parse_eq_ok_iff_denotes.mp hparse
    rw [extent?_eq_some_iff]
    refine ⟨img.header, _, rfl, ?_⟩
    simp only [List.length_append, Header.length_toBytes, Tlv.length_flatMap_toBytes]
    rw [tlvSize] at htlvs
    omega
  append := by
    intro data n h more
    rw [extent?_eq_some_iff] at h ⊢
    obtain ⟨header, rest, rfl, rfl⟩ := h
    exact ⟨header, rest ++ more, List.append_assoc _ _ _, rfl⟩

end Legacy

/-! ## Both formats -/

/-- A file that is accepted is refused with anything behind it, and with anything of its end missing.
-/
theorem not_both_parse (data more : Bytes) (hmore : more ≠ []) :
    ¬((∃ img, Image.parse data = .ok img) ∧ ∃ img, Image.parse (data ++ more) = .ok img) ∧
    ¬((∃ img, Legacy.parse data = .ok img) ∧ ∃ img, Legacy.parse (data ++ more) = .ok img) :=
  ⟨Image.tellsSize.not_both hmore, Legacy.tellsSize.not_both hmore⟩

namespace Trailing

/-- The bytes of one more value. -/
def value : Bytes := [0xa0, 0, 1, 0, 7]

def image : Image where
  header := { headerSize := 34, bodySize := 3, flags := 0, version := ⟨1, 0, 0, 0⟩ }
  pad := [8, 9]
  body := [1, 2, 3]
  tlvs := [⟨0xa0, 0, [7]⟩]

def file : Bytes :=
  image.header.toBytes ++ (image.pad ++ image.body ++ Image.tlvBytes image.tlvs)

theorem parse_file : Image.parse file = .ok image := by
  have htlvs : Image.TlvsFit image.tlvs := by
    rw [Image.TlvsFit]
    decide
  exact Image.parse_eq_ok_iff_denotes.mpr ⟨⟨rfl, rfl⟩, htlvs, rfl⟩

def legacy : Legacy where
  header := { tlvSize := 5, headerSize := 34, bodySize := 3, flags := 0, version := ⟨1, 0, 0, 0⟩ }
  pad := [8, 9]
  body := [1, 2, 3]
  tlvs := [⟨0xa0, 0, [7]⟩]

def legacyFile : Bytes :=
  legacy.header.toBytes ++ (legacy.pad ++ legacy.body ++ legacy.tlvs.flatMap Tlv.toBytes)

theorem parse_legacyFile : Legacy.parse legacyFile = .ok legacy :=
  Legacy.parse_eq_ok_iff_denotes.mpr ⟨⟨rfl, rfl⟩, rfl, rfl⟩

end Trailing

/-- Even a whole value behind the last one makes both files unreadable. -/
theorem not_both_parse_trailing :
    (Image.parse Trailing.file = .ok Trailing.image ∧
      ∀ img, Image.parse (Trailing.file ++ Trailing.value) ≠ .ok img) ∧
    Legacy.parse Trailing.legacyFile = .ok Trailing.legacy ∧
      ∀ img, Legacy.parse (Trailing.legacyFile ++ Trailing.value) ≠ .ok img := by
  have hvalue : Trailing.value ≠ [] := List.cons_ne_nil _ _
  obtain ⟨himage, -⟩ := not_both_parse Trailing.file Trailing.value hvalue
  obtain ⟨-, hlegacy⟩ := not_both_parse Trailing.legacyFile Trailing.value hvalue
  refine ⟨⟨Trailing.parse_file, ?_⟩, Trailing.parse_legacyFile, ?_⟩
  · intro img hparse
    exact himage ⟨⟨_, Trailing.parse_file⟩, img, hparse⟩
  · intro img hparse
    exact hlegacy ⟨⟨_, Trailing.parse_legacyFile⟩, img, hparse⟩

end Firmware
