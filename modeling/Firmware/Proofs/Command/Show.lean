import Firmware.Command.Run
import Firmware.Proofs.Command.Report
import Firmware.Proofs.Command.Session
import Firmware.Proofs.Offsets

/-!
# Offsets as they are shown

What is shown of a legacy image has a row for each of its values.  `shownOffsets` are the offsets in
these rows, and they are the places of the values in the file (`shownOffsets_legacyReport`,
`Legacy.standsAt_tlvOffsets`).  On the output, a row starts with the number of its value and the
offset: `occurs_legacyReport`.

`offsets_locate` puts this together with the offsets of images and regions.
-/

namespace Firmware.Command

/-! ## Legacy images -/

/-- Whether a section is a row about a value. -/
def isValueRow : Toml.Section → Bool
  | ⟨.row ["tlvs"], _⟩ => true
  | _ => false

/-- The offsets in the rows about values. -/
def shownOffsets (report : List Toml.Section) : List Toml.Plain :=
  (report.filter isValueRow).filterMap fun row => row.entries.lookup "offset"

theorem rows_eq (name : String) (tables : List (List (String × Toml.Plain))) :
    (Toml.rows name tables).2 = tables.map fun entries => ⟨.row [name], entries⟩ := by
  cases tables with
  | nil => rfl
  | cons entries tables => rfl

/-- Above the rows of a legacy image there are none. -/
theorem legacyReport_eq (img : Legacy) :
    ∃ top, legacyReport img =
        top ++ (tlvEntries Legacy.tagName img.tlvOffsets img.tlvs).map
          (fun entries => ⟨.row ["tlvs"], entries⟩) ∧
      top.filter isValueRow = [] := by
  rw [← rows_eq]
  exact ⟨_, rfl, rfl⟩

/-- The row of a value. -/
theorem mem_tlvEntries (name : UInt8 → String) {offsets : List Nat} {tlvs : List Tlv}
    {i offset : Nat} {t : Tlv} (ht : tlvs[i]? = some t) (hoffset : offsets[i]? = some offset) :
    [("index", .number i), ("offset", .number offset), ("name", .text (name t.tag)),
      ("tlv_type", .number t.tag.toNat), ("len", .number t.data.length),
      ("data", .text (Hex.encode t.data))] ∈ tlvEntries name offsets tlvs := by
  have hzip : (tlvs.zip offsets)[i]? = some (t, offset) :=
    List.getElem?_zip_eq_some.mpr ⟨ht, hoffset⟩
  have hplace : (tlvs.zip offsets).zipIdx[i]? = some ((t, offset), i) := by
    rw [List.getElem?_zipIdx, hzip, Nat.zero_add]
    rfl
  exact List.mem_map.mpr ⟨_, List.mem_of_getElem? hplace, rfl⟩

theorem shownOffsets_legacyReport (img : Legacy) :
    shownOffsets (legacyReport img) = img.tlvOffsets.map .number := by
  obtain ⟨top, hreport, htop⟩ := legacyReport_eq img
  have hlength : img.tlvOffsets.length = img.tlvs.length :=
    (Tlv.consecutive_offsetsFrom _ _).length_eq
  have hrows (entries : List (List (String × Toml.Plain))) :
      (entries.map fun e => Toml.Section.mk (.row ["tlvs"]) e).filter isValueRow =
        entries.map fun e => Toml.Section.mk (.row ["tlvs"]) e := by
    rw [List.filter_eq_self]
    intro row hrow
    obtain ⟨e, -, rfl⟩ := List.mem_map.mp hrow
    rfl
  rw [shownOffsets, hreport, List.filter_append, htop, List.nil_append, hrows, List.filterMap_map,
    tlvEntries, List.filterMap_map]
  show (img.tlvs.zip img.tlvOffsets).zipIdx.filterMap (fun p => some (Toml.Plain.number p.1.2)) = _
  rw [List.filterMap_eq_map']
  calc (img.tlvs.zip img.tlvOffsets).zipIdx.map (fun p => Toml.Plain.number p.1.2)
      = (((img.tlvs.zip img.tlvOffsets).zipIdx.map Prod.fst).map Prod.snd).map .number := by
        rw [List.map_map, List.map_map]
        rfl
    _ = img.tlvOffsets.map .number := by
        rw [List.zipIdx_map_fst, List.map_snd_zip (Nat.le_of_eq hlength)]

/-- The text of a row starts with the number of the value and its offset. -/
theorem occurs_row (i offset : Nat) (entries : List (String × Toml.Plain)) :
    Occurs s!"[[tlvs]]\nindex = {i}\noffset = {offset}\n"
      (Toml.Section.render
        ⟨.row ["tlvs"], ("index", .number i) :: ("offset", .number offset) :: entries⟩) := by
  refine ⟨"", String.join (entries.map fun e => e.1 ++ " = " ++ e.2.render ++ "\n"), ?_⟩
  rw [Toml.Section.render, List.map_cons, List.map_cons, String.join_cons, String.join_cons,
    String.empty_append]
  simp only [Toml.Heading.render, Toml.Plain.render, String.intercalate_singleton,
    String.append_assoc]
  rfl

theorem occurs_legacyReport {img : Legacy} {i offset : Nat} {t : Tlv}
    (ht : img.tlvs[i]? = some t) (hoffset : img.tlvOffsets[i]? = some offset) :
    Occurs s!"[[tlvs]]\nindex = {i}\noffset = {offset}\n"
      (Toml.renderReport (legacyReport img)) := by
  obtain ⟨top, hreport, -⟩ := legacyReport_eq img
  have hrow := List.mem_map_of_mem (f := fun entries => Toml.Section.mk (.row ["tlvs"]) entries)
    (mem_tlvEntries Legacy.tagName ht hoffset)
  have hmem := List.mem_append_right top hrow
  rw [← hreport] at hmem
  exact (occurs_row i offset _).trans (occurs_renderReport hmem (List.cons_ne_nil _ _))

/-- A file that holds a legacy image has the magic number of one. -/
theorem isLegacy_of_parse {data : Bytes} {img : Legacy} (h : Legacy.parse data = .ok img) :
    isLegacy data = true := by
  obtain ⟨-, -, rfl⟩ := Legacy.parse_eq_ok_iff_denotes.mp h
  exact beq_iff_eq.mpr rfl

/-- Showing a legacy image prints the report about it and changes nothing else. -/
theorem yields_showImage {w : Workspace} {path : String} {data : Bytes} {img : Legacy}
    (hload : w.load? path = some data) (hparse : Legacy.parse data = .ok img) :
    Yields ((Request.showImage path).run : InMemory Unit) w ()
      { w with printed := Toml.renderReport (legacyReport img) :: w.printed } := by
  have hcontent : Yields (content "Failed to read image" path : InMemory Bytes) w data w :=
    yields_content.mpr ⟨hload, rfl⟩
  have hattempt : Yields (attempt (about "Failed to parse legacy image" path) (Legacy.parse data) :
      InMemory Legacy) w img w := yields_attempt.mpr ⟨hparse, rfl⟩
  show Yields (showImage path) w _ _
  unfold showImage
  refine yields_bind.mpr ⟨data, w, hcontent, ?_⟩
  rw [if_pos (isLegacy_of_parse hparse)]
  exact yields_bind.mpr ⟨img, w, hattempt, rfl⟩

/-! ## All offsets -/

/-- The offsets of an image and of a region are those of their parts in the file, with the total that
is its size; writing a region reports no others.  Showing a legacy image prints a row for each value
with the offset at which the value stands. -/
theorem offsets_locate :
    (∀ (img : Image) (file : Bytes), img.toBytes = .ok file → img.Locates file img.offsets) ∧
    (∀ (m : Meta) (file : Bytes), m.toBytes = .ok file →
      m.Locates file m.offsets ∧
        ∀ t o, (m.writeTo t).2 = .ok o ↔ file.length ≤ t.sink.room ∧ o = m.offsets) ∧
    ∀ (img : Legacy) (file : Bytes), Legacy.parse file = .ok img →
      List.Forall₂ (Tlv.StandsAt file) img.tlvs img.tlvOffsets ∧
        ∀ (w : Workspace) (path : String), w.load? path = some file →
          ∃ report,
            Yields ((Request.showImage path).run : InMemory Unit) w ()
              { w with printed := Toml.renderReport report :: w.printed } ∧
            shownOffsets report = img.tlvOffsets.map .number ∧
            ∀ (i : Nat) (t : Tlv) (offset : Nat),
              img.tlvs[i]? = some t → img.tlvOffsets[i]? = some offset →
                Occurs s!"[[tlvs]]\nindex = {i}\noffset = {offset}\n"
                  (Toml.renderReport report) := by
  refine ⟨fun img file => Image.locates_offsets, fun m file hfile => ?_, fun img file hparse => ?_⟩
  · exact ⟨Meta.locates_offsets hfile, fun t o => Meta.writeTo_eq_ok_iff hfile t⟩
  · refine ⟨Legacy.standsAt_tlvOffsets hparse, fun w path hload => ?_⟩
    refine ⟨legacyReport img, yields_showImage hload hparse, shownOffsets_legacyReport img, ?_⟩
    intro i t offset ht hoffset
    exact occurs_legacyReport ht hoffset

/-! ### Two values each -/

namespace Shown

/-- Two values of different sizes. -/
def tlvs : List Tlv := [⟨0xa0, 7, [5]⟩, ⟨0xa1, 0, [6, 6]⟩]

def image : Image where
  header := { headerSize := 36, bodySize := 3, flags := 0, version := ⟨1, 0, 0, 0⟩ }
  pad := [9, 9, 9, 9]
  body := [1, 2, 3]
  tlvs := tlvs

def imageFile : Bytes := image.header.toBytes ++ (image.pad ++ image.body ++ Image.tlvBytes tlvs)

theorem toBytes_image : image.toBytes = .ok imageFile := by
  have htlvs : Image.TlvsFit image.tlvs := by
    rw [Image.TlvsFit]
    decide
  exact Image.toBytes_eq_ok_iff_denotes.mpr ⟨⟨rfl, rfl⟩, htlvs, rfl⟩

def region : Meta := ⟨[⟨7, [1, 2, 3]⟩, .blankHash], ⟨0, Meta.currentVersion, 0xff⟩⟩

theorem toBytes_region : region.toBytes = .ok region.bytes :=
  Meta.toBytes_eq_ok_iff.mpr ⟨Meta.writable_iff.mpr (by decide), rfl⟩

def legacy : Legacy where
  header := { tlvSize := 11, headerSize := 36, bodySize := 3, flags := 0, version := ⟨1, 0, 0, 0⟩ }
  pad := [9, 9, 9, 9]
  body := [1, 2, 3]
  tlvs := tlvs

def legacyFile : Bytes :=
  legacy.header.toBytes ++ (legacy.pad ++ legacy.body ++ tlvs.flatMap Tlv.toBytes)

theorem parse_legacyFile : Legacy.parse legacyFile = .ok legacy :=
  Legacy.parse_eq_ok_iff_denotes.mpr ⟨⟨rfl, rfl⟩, rfl, rfl⟩

/-- A directory with one file. -/
def workspaceOf (data : Bytes) : Workspace where
  files := [(["fw"], data)]
  source := .cycle []

theorem load?_workspaceOf (data : Bytes) : (workspaceOf data).load? "fw" = some data :=
  IsFileName.load?_eq {}

end Shown

open Shown in
/-- The second values stand behind the first ones, and so it is shown of the legacy image. -/
theorem offsets_locate_shown :
    image.offsets = ⟨0, 36, 39, [43, 48], 54⟩ ∧ image.Locates imageFile ⟨0, 36, 39, [43, 48], 54⟩ ∧
    region.offsets = ⟨[0, 5], 39, 47⟩ ∧ (region.writeTo (.ofLimit 47)).2 = .ok ⟨[0, 5], 39, 47⟩ ∧
    Tlv.StandsAt legacyFile ⟨0xa1, 0, [6, 6]⟩ 44 ∧
    ∃ text, Yields ((Request.showImage "fw").run : InMemory Unit) (workspaceOf legacyFile) ()
        { workspaceOf legacyFile with printed := [text] } ∧
      Occurs "[[tlvs]]\nindex = 1\noffset = 44\n" text := by
  obtain ⟨himages, hregions, hlegacies⟩ := offsets_locate
  obtain ⟨hplaces, hshown⟩ := hlegacies legacy legacyFile parse_legacyFile
  obtain ⟨report, hprinted, -, hrows⟩ := hshown (workspaceOf legacyFile) "fw" (load?_workspaceOf _)
  have hwritten := ((hregions region region.bytes toBytes_region).2 (.ofLimit 47) region.offsets).mpr
    ⟨by decide, rfl⟩
  have hsecond : Tlv.StandsAt legacyFile ⟨0xa1, 0, [6, 6]⟩ 44 := by
    cases hplaces with
    | cons hfirst hrest =>
        cases hrest with
        | cons hsecond _ => exact hsecond
  exact ⟨rfl, himages image imageFile toBytes_image, rfl, hwritten, hsecond,
    Toml.renderReport report, hprinted, hrows 1 _ 44 rfl rfl⟩

end Firmware.Command
