import Firmware.Proofs.Image.Format
import Firmware.Proofs.Legacy.Format
import Firmware.Proofs.Meta.Format

/-!
# Writing to a store that runs full

`writeTo_truncated` : a store with room for `n` bytes gets the first `n` bytes of the file, for both
image formats and for meta regions, and the writer succeeds exactly if that is the whole file.

What a script writes is cut at any place by `Script.cuts_writeTo`, so what is left to show of a
format is where its script can fail.  Both image formats check everything before the first piece: an
area that passes has no value that is too large, so nothing behind the check can fail
(`Image.script_of_toBytes`, `Legacy.script_of_toBytes`).  A meta region checks its values one by one,
and fails behind those that it has written (`Meta.scriptFrom_failure`).
-/

namespace Firmware

variable {n : Nat}

/-! ## Images -/

/-- An image that has no file fails before the first piece. -/
theorem Image.script_of_toBytes {img : Image} {e : Error} (h : img.toBytes = .error e) :
    img.script = .fail e := by
  unfold toBytes at h
  cases hvalid : img.validate with
  | error e' =>
      rw [script, hvalid] at h ⊢
      exact congrArg Script.fail (Except.error.inj h)
  | ok u =>
      obtain ⟨hcontent, hfit⟩ := validate_eq_ok_iff.mp hvalid
      have hok : img.script.toBytes = .ok _ := toBytes_eq_ok_iff_denotes.mpr ⟨hcontent, hfit, rfl⟩
      cases hok.symm.trans h

/-- A legacy image that has no file fails before the first piece. -/
theorem Legacy.script_of_toBytes {img : Legacy} {e : Error} (h : img.toBytes = .error e) :
    img.script = .fail e := by
  unfold toBytes at h
  cases hvalid : img.validate with
  | error e' =>
      rw [script, hvalid] at h ⊢
      exact congrArg Script.fail (Except.error.inj h)
  | ok u =>
      obtain ⟨hcontent, hsize⟩ := validate_eq_ok_iff.mp hvalid
      have hok : img.script.toBytes = .ok _ := toBytes_eq_ok_iff_denotes.mpr ⟨hcontent, hsize, rfl⟩
      cases hok.symm.trans h

/-- The size of what stands before the values. -/
def Legacy.contentSize (img : Legacy) : Nat :=
  Content.headerLength + img.pad.length + img.body.length

/-- The error for a store that runs full is one about the image before the values, and one about a
value behind that place. -/
theorem Legacy.error_of_isFull {img : Legacy} {bytes : Bytes} {e : Error}
    (h : img.toBytes = .ok bytes) (he : img.script.IsFull Error.ofField n e) :
    (n < img.contentSize ∧ ∃ field, e = .write field) ∨
      (img.contentSize ≤ n ∧ ∃ field, e = .tlv (.write field)) := by
  obtain ⟨hcontent, hsize, -⟩ := toBytes_eq_ok_iff_denotes.mp h
  obtain ⟨field, hfield, rfl⟩ := he
  have hvalid : img.validate = .ok () := validate_eq_ok_iff.mpr ⟨hcontent, hsize⟩
  have hlength : ([(Field.content .header, img.header.toBytes),
      (.content .headerPadding, img.pad), (.content .body, img.body)].flatMap (·.2)).length =
      img.contentSize := by
    simp only [List.flatMap_cons, List.flatMap_nil, List.append_nil, List.length_append,
      Header.length_toBytes, contentSize, Content.headerLength]
    omega
  rw [script, hvalid] at hfield
  rw [show (Script.prepend _ _).chunks = _ ++ _ from rfl, pieceAt_append, hlength] at hfield
  split at hfield
  · rename_i hlt
    refine .inl ⟨hlt, ?_⟩
    have hmem := mem_of_pieceAt hfield
    simp only [List.map_cons, List.map_nil, List.mem_cons, List.not_mem_nil, or_false] at hmem
    rcases hmem with rfl | rfl | rfl
    · exact ⟨_, rfl⟩
    · exact ⟨_, rfl⟩
    · exact ⟨_, rfl⟩
  · rename_i hge
    refine .inr ⟨Nat.le_of_not_lt hge, ?_⟩
    have hmem := mem_of_pieceAt hfield
    obtain ⟨chunk, hchunk, rfl⟩ := List.mem_map.mp hmem
    obtain ⟨⟨name, data⟩, -, rfl⟩ := List.mem_map.mp hchunk
    exact ⟨name, rfl⟩

/-! ## Meta regions -/

namespace Meta

theorem stop_offsetsFrom (start : Nat) (ts : List Item) :
    (offsetsFrom start ts).2 = start + areaSize ts := by
  induction ts generalizing start with
  | nil => rfl
  | cons t ts ih =>
      show (offsetsFrom (start + t.size) ts).2 = start + (t.size + areaSize ts)
      rw [ih, Nat.add_assoc]

theorem totalSize_offsets (m : Meta) : m.offsets.totalSize = m.size := by
  show (offsetsFrom 0 m.items).2 + footerLength = _
  rw [stop_offsetsFrom, Nat.zero_add, size]

/-- Values are written up to the first one that is too large. -/
theorem scriptFrom_failure {footer : Bytes} {index : Nat} {ts : List Item} {e : Error}
    (h : (scriptFrom footer index ts).failure = some e) :
    ∃ before t behind, ts = before ++ t :: behind ∧ (∀ u ∈ before, u.Fits) ∧ ¬t.Fits ∧
      e = .tlvDataTooLarge (index + before.length) t.data.length ∧
      (scriptFrom footer index ts).chunks.flatMap (·.2) = before.flatMap Item.toBytes := by
  induction ts generalizing index with
  | nil => cases h
  | cons t ts ih =>
      rw [scriptFrom] at h ⊢
      split at h
      · rename_i hfits
        obtain ⟨before, u, behind, rfl, hall, hlarge, rfl, hchunks⟩ := ih h
        refine ⟨t :: before, u, behind, rfl, List.forall_mem_cons.mpr ⟨hfits, hall⟩, hlarge, ?_, ?_⟩
        · rw [List.length_cons, Nat.add_right_comm, Nat.add_assoc]
        · rw [if_pos hfits, List.flatMap_cons, ← hchunks, Item.toBytes]
          rfl
      · rename_i hlarge
        refine ⟨[], t, ts, rfl, List.forall_mem_nil _, hlarge, (Option.some.inj h).symm, ?_⟩
        rw [if_neg hlarge]
        rfl

theorem writeTo_eq (m : Meta) (t : Tally) :
    m.writeTo t =
      let run := m.script.writeTo .write t
      (run.1, run.2.map fun _ => { m.offsets with totalSize := run.1.count - t.count }) := by
  rw [writeTo]
  rcases m.script.writeTo .write t with ⟨t', r⟩
  cases r with
  | error e => rfl
  | ok u => rfl

/-- A run that wrote the whole region says where its parts went. -/
theorem cuts_writeTo {m : Meta} {bytes : Bytes} (h : m.toBytes = .ok bytes) (n : Nat) :
    Cuts n bytes (.ok m.offsets) (m.script.IsFull .write n) (m.writeTo (.ofLimit n)) := by
  have hcuts := Script.cuts_of_toBytes h Error.write n
  have hmapped := hcuts.map fun _ => { m.offsets with
    totalSize := (m.script.writeTo .write (.ofLimit n)).1.count - (Tally.ofLimit n).count }
  rw [writeTo_eq]
  refine { hmapped with fits := fun hle => (hmapped.fits hle).trans ?_ }
  have htotal : (m.script.writeTo .write (.ofLimit n)).1.count - (Tally.ofLimit n).count =
      m.offsets.totalSize := by
    obtain ⟨-, rfl⟩ := toBytes_eq_ok_iff.mp h
    rw [totalSize_offsets, ← length_bytes, hcuts.count, hcuts.stored, List.take_of_length_le hle]
    exact Nat.sub_zero _
  rw [htotal]
  rfl

/-- A region that has no bytes is either too large, or one of its values is. -/
theorem cuts_of_toBytes_error {m : Meta} {e : Error} (h : m.toBytes = .error e) (n : Nat) :
    (e = .regionTooLarge m.size ∧
        Cuts n [] (.error e) (fun _ => False) (m.writeTo (.ofLimit n))) ∨
      ∃ before t behind, m.items = before ++ t :: behind ∧ (∀ u ∈ before, u.Fits) ∧ ¬t.Fits ∧
        e = .tlvDataTooLarge before.length t.data.length ∧
        Cuts n (before.flatMap Item.toBytes) (.error e) (m.script.IsFull .write n)
          (m.writeTo (.ofLimit n)) := by
  have hfailure : m.script.failure = some e := Script.toBytes_eq_error_iff.mp h
  have hcuts := (m.script.cuts_of_failure hfailure Error.write n).map fun _ => { m.offsets with
    totalSize := (m.script.writeTo .write (.ofLimit n)).1.count - (Tally.ofLimit n).count }
  rw [← writeTo_eq] at hcuts
  by_cases hlarge : UInt16.size ≤ m.size
  · have hscript : m.script = .fail (.regionTooLarge m.size) := if_pos hlarge
    rw [hscript] at hfailure hcuts
    obtain rfl := Option.some.inj hfailure
    exact .inl ⟨rfl, hcuts.of_nil⟩
  · have hscript : m.script = scriptFrom m.footerBytes 0 m.items := if_neg hlarge
    rw [hscript] at hfailure
    obtain ⟨before, t, behind, hitems, hall, ht, rfl, hchunks⟩ := scriptFrom_failure hfailure
    rw [← hscript] at hchunks
    rw [hchunks] at hcuts
    rw [Nat.zero_add] at hcuts ⊢
    exact .inr ⟨before, t, behind, hitems, hall, ht, rfl, hcuts⟩

end Meta

/-! ## All formats -/

/-- A store that runs full has the beginning of the file, and the run fails with the piece that did
not fit.  What has no file leaves no bytes, apart from the values of a region before one that is too
large. -/
theorem writeTo_truncated (n : Nat) :
    (∀ img : Image,
      (∀ bytes, img.toBytes = .ok bytes →
        Cuts n bytes (.ok ()) (img.script.IsFull .write n) (img.writeTo (.ofLimit n))) ∧
      ∀ e, img.toBytes = .error e →
        Cuts n [] (.error e) (fun _ => False) (img.writeTo (.ofLimit n))) ∧
    (∀ img : Legacy,
      (∀ bytes, img.toBytes = .ok bytes →
        Cuts n bytes (.ok ())
          (fun e => img.script.IsFull .ofField n e ∧
            ((n < img.contentSize ∧ ∃ field, e = .write field) ∨
              (img.contentSize ≤ n ∧ ∃ field, e = .tlv (.write field))))
          (img.writeTo (.ofLimit n))) ∧
      ∀ e, img.toBytes = .error e →
        Cuts n [] (.error e) (fun _ => False) (img.writeTo (.ofLimit n))) ∧
    ∀ m : Meta,
      (∀ bytes, m.toBytes = .ok bytes →
        Cuts n bytes (.ok m.offsets) (m.script.IsFull .write n) (m.writeTo (.ofLimit n))) ∧
      ∀ e, m.toBytes = .error e →
        (e = .regionTooLarge m.size ∧
          Cuts n [] (.error e) (fun _ => False) (m.writeTo (.ofLimit n))) ∨
        ∃ before t behind, m.items = before ++ t :: behind ∧ (∀ u ∈ before, u.Fits) ∧ ¬t.Fits ∧
          e = .tlvDataTooLarge before.length t.data.length ∧
          Cuts n (before.flatMap Meta.Item.toBytes) (.error e) (m.script.IsFull .write n)
            (m.writeTo (.ofLimit n)) := by
  refine ⟨fun img => ⟨fun bytes h => ?_, fun e h => ?_⟩,
    fun img => ⟨fun bytes h => ?_, fun e h => ?_⟩, fun m => ⟨fun bytes h => ?_, fun e h => ?_⟩⟩
  · exact Script.cuts_of_toBytes h Image.Error.write n
  · rw [Image.writeTo, Image.script_of_toBytes h]
    exact Script.cuts_fail e Image.Error.write n
  · have hcuts := Script.cuts_of_toBytes h Legacy.Error.ofField n
    refine { hcuts with full := fun hlt => ?_ }
    obtain ⟨e, he, hfull⟩ := hcuts.full hlt
    exact ⟨e, he, hfull, Legacy.error_of_isFull h hfull⟩
  · rw [Legacy.writeTo, Legacy.script_of_toBytes h]
    exact Script.cuts_fail e Legacy.Error.ofField n
  · exact Meta.cuts_writeTo h n
  · exact Meta.cuts_of_toBytes_error h n

/-! ### A store with room for a header

Nothing stands between the header and the values of the legacy image, so two empty pieces are written
to a store that is full already, and the third piece is the one that does not fit.
-/

namespace Truncation

/-- An image with a body of three bytes. -/
def image : Image where
  header := ⟨32, 3, 0, ⟨1, 0, 0, 0⟩, 0, 0, 0⟩
  pad := []
  body := [1, 2, 3]
  tlvs := [⟨Tlv.sha256Tag, 0, [5, 6]⟩]

/-- An image whose header declares a fourth byte. -/
def longer : Image := { image with header := { image.header with bodySize := 4 } }

/-- A legacy image without a body. -/
def legacy : Legacy where
  header := ⟨6, 0, 0, 32, 0, 0, 0, ⟨1, 0, 0, 0⟩, 0⟩
  pad := []
  body := []
  tlvs := [⟨1, 0, [5, 6]⟩]

/-- A region with a value that is too large behind another one. -/
def region : Meta := ⟨[.blankHash, ⟨7, List.replicate 256 9⟩], ⟨0, Meta.currentVersion, 0xff⟩⟩

set_option maxRecDepth 10000 in
theorem toBytes_region : region.toBytes = .error (.tlvDataTooLarge 1 256) := by decide +kernel

set_option maxRecDepth 10000 in
theorem pieceAt_region : pieceAt region.script.chunks 32 = some .tlvData := by decide +kernel

end Truncation

open Truncation in
theorem writeTo_truncated_header :
    (∃ bytes, image.toBytes = .ok bytes ∧
      (image.writeTo (.ofLimit 32)).1.sink.stored = bytes.take 32 ∧
      (image.writeTo (.ofLimit 32)).2 = .error (.write (.content .body))) ∧
    (longer.toBytes = .error (.content (.bodySizeMismatch 4 3)) ∧
      (longer.writeTo (.ofLimit 32)).1.sink.stored = [] ∧
      (longer.writeTo (.ofLimit 32)).2 = .error (.content (.bodySizeMismatch 4 3))) ∧
    (∃ bytes, legacy.toBytes = .ok bytes ∧
      (legacy.writeTo (.ofLimit 32)).1.sink.stored = bytes.take 32 ∧
      (legacy.writeTo (.ofLimit 32)).2 = .error (.tlv (.write .header))) ∧
    (region.toBytes = .error (.tlvDataTooLarge 1 256) ∧
      (region.writeTo (.ofLimit 32)).1.sink.stored = Meta.Item.blankHash.toBytes.take 32 ∧
      (region.writeTo (.ofLimit 32)).2 = .error (.write .tlvData)) := by
  obtain ⟨himages, hlegacies, hregions⟩ := writeTo_truncated 32
  refine ⟨?_, ?_, ?_, ?_⟩
  · have hfile : image.toBytes = .ok (image.header.toBytes ++
        [1, 2, 3, 0x07, 0x69, 10, 0, 0x10, 0, 2, 0, 5, 6]) := by decide
    have hcuts := (himages image).1 _ hfile
    obtain ⟨e, he, name, hname, rfl⟩ := hcuts.full (by decide)
    obtain rfl : Image.Field.content .body = name := Option.some.inj hname
    exact ⟨_, hfile, hcuts.stored, he⟩
  · have hfile : longer.toBytes = .error (.content (.bodySizeMismatch 4 3)) := by decide
    have hcuts := (himages longer).2 _ hfile
    exact ⟨hfile, hcuts.stored, hcuts.fits (Nat.zero_le _)⟩
  · have hfile : legacy.toBytes = .ok (legacy.header.toBytes ++ [1, 0, 2, 0, 5, 6]) := by decide
    have hcuts := (hlegacies legacy).1 _ hfile
    obtain ⟨e, he, ⟨name, hname, rfl⟩, -⟩ := hcuts.full (by decide)
    obtain rfl : Legacy.Field.tlv .header = name := Option.some.inj hname
    exact ⟨_, hfile, hcuts.stored, he⟩
  · rcases (hregions region).2 _ toBytes_region with
      ⟨he, -⟩ | ⟨before, t, behind, hitems, -, -, he, hcuts⟩
    · cases he
    · have hbefore : before = [Meta.Item.blankHash] := by
        have hlength : before.length = 1 := (Meta.Error.tlvDataTooLarge.inj he).1.symm
        have htake : (before ++ t :: behind).take 1 = before := List.take_left' hlength
        rw [← hitems] at htake
        exact htake.symm
      rw [hbefore] at hcuts
      obtain ⟨e, he, name, hname, rfl⟩ := hcuts.full (by decide)
      obtain rfl := Option.some.inj (pieceAt_region.symm.trans hname)
      exact ⟨toBytes_region, hcuts.stored, he⟩

end Firmware
