import Firmware.Proofs.Placed
import Firmware.Proofs.Truncation

/-!
# Offsets that point at the bytes

The offsets of an image and of a meta region are computed from the sizes of the parts, without a look
at the bytes that are written.  `Image.locates_offsets` and `Meta.locates_offsets` say that they are
right: what stands at each of them in the file is the part that it is named after.

Each of the running sums gets one lemma that says what it computes, `consecutive_offsetsFrom`; where
the values stand then follows from `Consecutive.standsAt`, with what the format writes in front of
the values and behind them.

Writing a region reports offsets as well, and there the total is what the store has taken:
`Meta.writeTo_eq_ok_iff`.  For a legacy image the offsets are computed from the size of the header
that it declares, `Legacy.standsAt_tlvOffsets`.
-/

namespace Firmware

/-! ## Values of images -/

theorem Tlv.consecutive_offsetsFrom (start : Nat) (ts : List Tlv) :
    Consecutive Tlv.size start ts (offsetsFrom start ts).1 (offsetsFrom start ts).2 := by
  induction ts generalizing start with
  | nil => exact .nil start
  | cons t ts ih => exact .cons (ih (start + t.size))

/-- The bytes of a value at an offset: its tag and its pad, its length in two bytes, its data. -/
def Tlv.StandsAt (file : Bytes) (t : Tlv) (offset : Nat) : Prop :=
  t.data.length < UInt16.size ∧
    Firmware.StandsAt file offset (t.tag :: t.pad :: Bytes.ofNatLE 2 t.data.length ++ t.data)

/-- Values behind what is written in front of them. -/
theorem Tlv.standsAt_offsetsFrom {file front behind : Bytes} {ts : List Tlv} {start : Nat}
    (hfile : file = front ++ ts.flatMap toBytes ++ behind) (hstart : front.length = start)
    (hfits : ∀ t ∈ ts, t.Fits) :
    List.Forall₂ (Tlv.StandsAt file) ts (offsetsFrom start ts).1 := by
  have hrow := consecutive_offsetsFrom start ts
  rw [← hstart] at hrow ⊢
  have hplaces := hrow.standsAt length_toBytes behind
  rw [← hfile] at hplaces
  refine (List.forall₂_and_left _ _).mpr ⟨hfits, ?_⟩
  exact hplaces

/-! ## Images -/

namespace Image

/-- The parts of a file stand where the offsets say. -/
structure Locates (img : Image) (file : Bytes) (o : Offsets) : Prop where
  header : StandsAt file o.header img.header.toBytes
  /-- The body is all that stands between its offset and the trailer's. -/
  body : o.body ≤ o.trailer ∧ o.trailer ≤ file.length ∧ Bytes.slice file o.body o.trailer = img.body
  trailer : StandsAt file o.trailer (Bytes.ofU16 trailerMagic ++ Bytes.ofNatLE 2 img.tlvTotalSize)
  /-- The number in the trailer is not cut off. -/
  tlvTotalSize : img.tlvTotalSize < UInt16.size
  tlvs : List.Forall₂ (Tlv.StandsAt file) img.tlvs o.tlvs
  next : ∀ i t m n, img.tlvs[i]? = some t → o.tlvs[i]? = some m → o.tlvs[i + 1]? = some n →
    n = m + t.size
  totalSize : o.totalSize = file.length ∧ file.length = img.totalSize

theorem locates_offsets {img : Image} {file : Bytes} (h : img.toBytes = .ok file) :
    img.Locates file img.offsets := by
  obtain ⟨-, hfit, hfile⟩ := toBytes_eq_ok_iff_denotes.mp h
  have hlength := (toBytes_eq_ok_iff_denotes.mp h).length_eq
  have hbody : (img.header.toBytes ++ img.pad).length = img.offsets.body := by
    rw [List.length_append, Header.length_toBytes]
    rfl
  have htrailer : (img.header.toBytes ++ img.pad ++ img.body).length = img.offsets.trailer := by
    rw [List.length_append, hbody]
    rfl
  have htlvs : (img.header.toBytes ++ img.pad ++ img.body ++ img.trailerBytes).length =
      img.offsets.trailer + trailerLength := by
    rw [List.length_append, htrailer, trailerBytes, List.length_append, Bytes.length_ofU16,
      Bytes.length_ofNatLE]
    rfl
  have hparts : file = img.header.toBytes ++ img.pad ++ img.body ++ img.trailerBytes ++
      img.tlvs.flatMap Tlv.toBytes := by
    rw [hfile, tlvBytes, trailerBytes, Image.tlvTotalSize]
    simp only [List.append_assoc]
  have hrow : Consecutive Tlv.size (img.offsets.trailer + trailerLength) img.tlvs img.offsets.tlvs
      img.offsets.totalSize := Tlv.consecutive_offsetsFrom _ _
  have hplace : StandsAt file img.offsets.body img.body := by
    rw [List.append_assoc _ img.trailerBytes] at hparts
    exact standsAt_of_eq hparts hbody
  have hinside : img.offsets.trailer ≤ file.length := hplace.inside
  refine ⟨?_, ⟨Nat.le_add_right _ _, hinside, hplace.slice_eq⟩, ?_, hfit, ?_, ?_, ?_, hlength⟩
  · have hfront : file = [] ++ img.header.toBytes ++ (img.pad ++ img.body ++ tlvBytes img.tlvs) := by
      rw [List.nil_append]
      exact hfile
    exact standsAt_of_eq hfront rfl
  · exact standsAt_of_eq hparts htrailer
  · rw [← List.append_nil (_ ++ img.tlvs.flatMap Tlv.toBytes)] at hparts
    exact Tlv.standsAt_offsetsFrom hparts htlvs hfit.fits
  · intro i t m n
    exact hrow.next
  · rw [hrow.stop_eq Tlv.length_toBytes, hparts, List.length_append, htlvs]

end Image

/-! ## Meta regions -/

namespace Meta

theorem consecutive_offsetsFrom (start : Nat) (ts : List Item) :
    Consecutive Item.size start ts (offsetsFrom start ts).1 (offsetsFrom start ts).2 := by
  induction ts generalizing start with
  | nil => exact .nil start
  | cons t ts ih => exact .cons (ih (start + t.size))

/-- The bytes of a value at an offset: its tag, its length in one byte, its data. -/
def Item.StandsAt (file : Bytes) (t : Item) (offset : Nat) : Prop :=
  t.data.length < UInt8.size ∧
    Firmware.StandsAt file offset (t.tag :: UInt8.ofNat t.data.length :: t.data)

/-- The parts of a region stand where the offsets say. -/
structure Locates (m : Meta) (file : Bytes) (o : Offsets) : Prop where
  items : List.Forall₂ (Item.StandsAt file) m.items o.items
  footer : StandsAt file o.footer
    (Bytes.ofNatLE 2 m.size ++ [m.footer.version, m.footer.pad] ++ Bytes.ofU32 magic)
  totalSize : o.totalSize = file.length

theorem locates_offsets {m : Meta} {file : Bytes} (h : m.toBytes = .ok file) :
    m.Locates file m.offsets := by
  obtain ⟨hwritable, rfl⟩ := toBytes_eq_ok_iff.mp h
  have hrow : Consecutive Item.size ([] : Bytes).length m.items m.offsets.items m.offsets.footer :=
    consecutive_offsetsFrom 0 m.items
  have hstop := hrow.stop_eq Item.length_toBytes
  have hplaces := hrow.standsAt Item.length_toBytes m.footerBytes
  refine ⟨(List.forall₂_and_left _ _).mpr ⟨hwritable.fits, hplaces⟩, ?_, ?_⟩
  · have hfile : m.bytes = m.items.flatMap Item.toBytes ++ m.footerBytes ++ [] :=
      (List.append_nil _).symm
    refine standsAt_of_eq hfile ?_
    rw [hstop]
    exact (Nat.zero_add _).symm
  · rw [totalSize_offsets, length_bytes]

/-- Writing to a store with room for the region succeeds and reports the offsets, wherever the store
is and whatever has been counted before. -/
theorem writeTo_eq_ok_iff {m : Meta} {file : Bytes} (h : m.toBytes = .ok file) (t : Tally)
    {o : Offsets} : (m.writeTo t).2 = .ok o ↔ file.length ≤ t.sink.room ∧ o = m.offsets := by
  obtain ⟨hnone, hchunks⟩ := Script.toBytes_eq_ok_iff.mp h
  have htakes := t.takes_writeChunks m.script.chunks
  rw [hchunks] at htakes
  rw [writeTo_eq, Script.writeTo_eq, hnone]
  dsimp only
  cases hpiece : pieceAt m.script.chunks t.sink.room with
  | none =>
      have hroom : file.length ≤ t.sink.room := by
        rw [← hchunks]
        exact pieceAt_eq_none_iff.mp hpiece
      have htotal : (t.writeChunks m.script.chunks).1.count - t.count = m.offsets.totalSize := by
        rw [htakes.count, List.take_of_length_le hroom, Nat.add_sub_cancel_left,
          (locates_offsets h).totalSize]
      rw [htotal, and_iff_right hroom]
      show Except.ok m.offsets = Except.ok o ↔ _
      rw [Except.ok.injEq]
      exact eq_comm
  | some name =>
      have hfull : ¬file.length ≤ t.sink.room := by
        intro hroom
        rw [← hchunks] at hroom
        cases hpiece.symm.trans (pieceAt_eq_none_iff.mpr hroom)
      constructor
      · intro herror
        cases herror
      · rintro ⟨hroom, -⟩
        exact absurd hroom hfull

end Meta

/-! ## Legacy images -/

namespace Legacy

/-- The values of a file that was read, found with the header size that the file declares. -/
theorem standsAt_tlvOffsets {img : Legacy} {file : Bytes} (h : parse file = .ok img) :
    List.Forall₂ (Tlv.StandsAt file) img.tlvs img.tlvOffsets := by
  obtain ⟨⟨hpad, -⟩, hsize, rfl⟩ := parse_eq_ok_iff_denotes.mp h
  have hstart : (img.header.toBytes ++ img.pad ++ img.body).length =
      img.header.headerSize.toNat + img.body.length := by
    rw [List.length_append, List.length_append, Header.length_toBytes, hpad]
  have hfile : img.header.toBytes ++ (img.pad ++ img.body ++ img.tlvs.flatMap Tlv.toBytes) =
      img.header.toBytes ++ img.pad ++ img.body ++ img.tlvs.flatMap Tlv.toBytes ++ [] := by
    simp only [List.append_assoc, List.append_nil]
  exact Tlv.standsAt_offsetsFrom hfile hstart (fits_of_declared hsize)

end Legacy

end Firmware
