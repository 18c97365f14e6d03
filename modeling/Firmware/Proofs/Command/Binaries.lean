import Firmware.Command.Run
import Firmware.Proofs.Command.Report
import Firmware.Proofs.Command.Workspace
import Firmware.Proofs.Factory.Action

/-!
# The commands about regions agree

`update_then_show` : a binary that has been written with a new digest is found current when it is
shown.  What has been written is the binary after the replacement of its key, but for the digest;
showing a region finds its digest current exactly if it is that of the binary with zeros in its
place, and what is printed tells so; and a command that does not get as far as writing leaves every
file as it was.

All three commands that write do the same once the key is replaced: they read the region, bring it
up to date and write it back.  `Updates` lists these steps, and `yields_update` says that a command
that succeeds has taken them.
-/

namespace Firmware.Command

open Factory (InStep SameButDigest)

variable {w w' : Workspace} {p : Patch}

/-! ## The steps -/

/-- The requests that write a binary with a new digest. -/
inductive Request.UpdatesRegion : Request → Patch → Prop where
  | replace {kind : Embedded} {p : Patch} {old new : String} {stop : Nat} :
      p.stop = some stop → UpdatesRegion (.replace kind p old new) p
  | rehash {p : Patch} : UpdatesRegion (.rehash p) p

/-- The binary that a request reads, what the replacement of a key makes of it, and where the region
ends. -/
inductive Edits (w : Workspace) : Request → Patch → Bytes → Bytes → Nat → Prop where
  | replace {kind : Embedded} {p : Patch} {old new : String} {stop : Nat}
      {data edited oldKey newKey : Bytes} :
      p.stop = some stop → w.load? p.input = some data → w.load? old = some oldKey →
      w.load? new = some newKey → kind.replace data oldKey newKey = .ok edited →
      Edits w (.replace kind p old new) p data edited stop
  | rehash {p : Patch} {data : Bytes} :
      w.load? p.input = some data → Edits w (.rehash p) p data data (p.stop.getD data.length)

/-- The steps of a request that writes a binary with a new digest, up to the writing. -/
structure Updates (w : Workspace) (request : Request) (p : Patch) (data edited : Bytes) (stop : Nat)
    (start fresh : Factory) : Prop where
  edits : Edits w request p data edited stop
  parse : Factory.parse edited (some stop) = .ok start
  rehash : start.rehash p.erase = .ok fresh

theorem length_of_replace {kind : Embedded} {data old new edited : Bytes}
    (h : kind.replace data old new = .ok edited) : edited.length = data.length := by
  cases kind with
  | signingKey =>
      exact (Factory.Edit.clean_replaceSigningKey old new).length_of_yields
        (Factory.Edit.result_eq_ok_iff.mp h)
  | kek =>
      exact (Factory.Edit.clean_replaceKek old new).length_of_yields
        (Factory.Edit.result_eq_ok_iff.mp h)

theorem Edits.length_eq {request : Request} {data edited : Bytes} {stop : Nat}
    (h : Edits w request p data edited stop) : edited.length = data.length := by
  cases h with
  | replace _ _ _ _ hreplace => exact length_of_replace hreplace
  | rehash _ => rfl

/-- The region is shown in the output at the end at which it was updated. -/
theorem Edits.stop_eq {request : Request} {data edited : Bytes} {stop : Nat}
    (h : Edits w request p data edited stop) : p.stop.getD data.length = stop := by
  cases h with
  | replace hstop _ _ _ _ => rw [hstop, Option.getD_some]
  | rehash _ => rfl

/-! ## Runs -/

theorem yields_updateRegion {erase : UInt8} {f : Factory} {label : String} {out : Bytes}
    (h : Yields (updateRegion erase f label : InMemory Bytes) w out w') :
    ∃ fresh, f.rehash erase = .ok fresh ∧ fresh.toBytes erase = .ok out := by
  simp only [updateRegion, yields_bind, yields_attempt, yields_check] at h
  obtain ⟨fresh, _, ⟨hrehash, rfl⟩, _, _, -, _, _, -, hbytes, -⟩ := h
  exact ⟨fresh, hrehash, hbytes⟩

theorem yields_patchBinary {what : String} {replace : Bytes → Except Factory.Error Bytes}
    {stop : Nat} (hstop : p.stop = some stop)
    (h : Yields (patchBinary p fun data => attempt what (replace data) : InMemory Unit) w () w') :
    ∃ data edited start fresh out, w.load? p.input = some data ∧ replace data = .ok edited ∧
      Factory.parse edited (some stop) = .ok start ∧ start.rehash p.erase = .ok fresh ∧
      fresh.toBytes p.erase = .ok out ∧ w'.load? p.output = some out := by
  rw [patchBinary, hstop] at h
  simp only [yields_bind, yields_content, yields_attempt, yields_save] at h
  obtain ⟨data, _, ⟨hload, rfl⟩, edited, _, ⟨hreplace, rfl⟩, start, _, ⟨hparse, rfl⟩, out, _,
    hupdate, hstore⟩ := h
  obtain ⟨fresh, hrehash, hbytes⟩ := yields_updateRegion hupdate
  exact ⟨data, edited, start, fresh, out, hload, hreplace, hparse, hrehash, hbytes,
    Workspace.load?_of_store? hstore⟩

theorem yields_readRegion {path : String} {stop : Option Nat} {f : Factory} :
    Yields (readRegion path stop : InMemory Factory) w f w' ↔
      (∃ data, w.load? path = some data ∧
        Factory.parse data (some (stop.getD data.length)) = .ok f) ∧ w = w' := by
  simp only [readRegion, yields_bind, yields_content, yields_attempt]
  constructor
  · rintro ⟨data, _, ⟨hload, rfl⟩, hparse, rfl⟩
    exact ⟨⟨data, hload, hparse⟩, rfl⟩
  · rintro ⟨⟨data, hload, hparse⟩, rfl⟩
    exact ⟨data, w, ⟨hload, rfl⟩, hparse, rfl⟩

/-- A command that succeeds has taken all steps and has written what they came to. -/
theorem yields_update {request : Request} (hrequest : request.UpdatesRegion p)
    (h : Yields (request.run : InMemory Unit) w () w') :
    ∃ data edited stop start fresh out, Updates w request p data edited stop start fresh ∧
      fresh.toBytes p.erase = .ok out ∧ w'.load? p.output = some out := by
  cases hrequest with
  | replace hstop =>
      rw [Request.run, replaceKey] at h
      simp only [yields_bind, yields_content] at h
      obtain ⟨oldKey, _, ⟨hold, rfl⟩, newKey, _, ⟨hnew, rfl⟩, h⟩ := h
      obtain ⟨data, edited, start, fresh, out, hload, hreplace, hparse, hrehash, hbytes, hout⟩ :=
        yields_patchBinary hstop h
      exact ⟨data, edited, _, start, fresh, out,
        ⟨.replace hstop hload hold hnew hreplace, hparse, hrehash⟩, hbytes, hout⟩
  | rehash =>
      rw [Request.run, rehashBinary] at h
      simp only [yields_bind, yields_readRegion, yields_save] at h
      obtain ⟨start, _, ⟨⟨data, hload, hparse⟩, rfl⟩, out, _, hupdate, hstore⟩ := h
      obtain ⟨fresh, hrehash, hbytes⟩ := yields_updateRegion hupdate
      exact ⟨data, data, _, start, fresh, out, ⟨.rehash hload, hparse, hrehash⟩, hbytes,
        Workspace.load?_of_store? hstore⟩

/-! ## Failures -/

theorem onlyPrints_updateRegion (erase : UInt8) (f : Factory) (label : String) :
    OnlyPrints (updateRegion erase f label : InMemory Bytes) := by
  refine (OnlyPrints.attempt _ _).bind fun fresh => ?_
  refine (OnlyPrints.check _).bind fun digest => ?_
  exact (OnlyPrints.status _).bind fun _ => .check _

theorem failsClean_patchBinary {what : String} {replace : Bytes → Except Factory.Error Bytes} :
    FailsClean (patchBinary p fun data => attempt what (replace data) : InMemory Unit) := by
  refine (OnlyPrints.content _ _).bind_failsClean fun data => ?_
  refine (OnlyPrints.attempt _ _).bind_failsClean fun edited => ?_
  cases p.stop with
  | none => exact (OnlyPrints.pure _).bind_failsClean fun out => failsClean_save _ _ _
  | some stop =>
      refine (OnlyPrints.attempt _ _).bind_failsClean fun f => ?_
      exact (onlyPrints_updateRegion _ _ _).bind_failsClean fun out => failsClean_save _ _ _

theorem failsClean_update {request : Request} (hrequest : request.UpdatesRegion p) :
    FailsClean (request.run : InMemory Unit) := by
  cases hrequest with
  | replace hstop =>
      refine (OnlyPrints.content _ _).bind_failsClean fun old => ?_
      exact (OnlyPrints.content _ _).bind_failsClean fun new => failsClean_patchBinary
  | rehash =>
      have hread : OnlyPrints (readRegion p.input p.stop : InMemory Factory) :=
        (OnlyPrints.content _ _).bind fun data => .attempt _ _
      refine hread.bind_failsClean fun f => ?_
      exact (onlyPrints_updateRegion _ _ _).bind_failsClean fun out => failsClean_save _ _ _

/-! ## Showing a region -/

/-- Whether the digest is found current is decided before anything of the region is printed. -/
theorem showRegion_run {path : String} {stop : Option Nat} {data digest : Bytes} {m : Meta}
    {offset : Nat} (hload : w.load? path = some data)
    (hparse : Factory.parse data (some (stop.getD data.length)) = .ok ⟨data, some m, offset⟩)
    (hdigest : m.HasDigest digest) :
    ((Request.showRegion path stop).run : InMemory Unit) w =
      (printRegion m offset digest (m.digestOf offset data == digest) : InMemory Unit) w := by
  obtain ⟨_, _, hcarries, -, hf⟩ := Factory.parse_eq_ok_iff.mp hparse
  cases hf
  have hread := yields_readRegion.mpr ⟨⟨data, hload, hparse⟩, rfl⟩
  have hregion : ∀ what, Yields (demand what (some m) : InMemory Meta) w m w :=
    fun what => yields_demand.mpr ⟨rfl, rfl⟩
  have hcurrent : ∀ what, Yields (attempt what (m.isCurrent offset data) : InMemory Bool) w
      (m.digestOf offset data == digest) w :=
    fun what => yields_attempt.mpr ⟨hcarries.isCurrent_eq hdigest, rfl⟩
  have hhash : ∀ what, Yields (attempt what m.hash : InMemory Bytes) w digest w :=
    fun what => yields_attempt.mpr ⟨Meta.hash_eq_ok_iff.mpr hdigest, rfl⟩
  rw [Request.run, showRegion, hread.bind_run, (hregion _).bind_run, (hcurrent _).bind_run,
    (hhash _).bind_run]

/-! ## The flag -/

/-- What is printed above a region whose digest is current or not. -/
def digestWarnings (current : Bool) : List String :=
  if current then []
  else ["\x1b[1;31m[WARNING] Stored hash does not match the binary contents\x1b[0m\n"]

/-- A run tells whether the digest of a region is current: by a warning, and by the one flag in the
report that it prints.  There is no report about a region with areas or references that cannot be
listed. -/
inductive TellsCurrent (w : Workspace) (x : InMemory Unit) (m : Meta) (current : Bool) : Prop
  | listed {report : List Toml.Section} :
      Yields x w () { w with
        printed := Toml.renderReport report :: (digestWarnings current ++ w.printed) } →
      valuesOf "hash_valid" report = [.truth current] →
      Occurs s!"hash_valid = {current}\n" (Toml.renderReport report) → TellsCurrent w x m current
  | unlisted {texts : Failure} :
      Fails x w texts { w with printed := digestWarnings current ++ w.printed } →
      (¬∃ areas refs, m.flashAreas = .ok areas ∧ m.refs = .ok refs) → TellsCurrent w x m current

theorem TellsCurrent.congr {x y : InMemory Unit} {m : Meta} {current : Bool}
    (hrun : y w = x w) (h : TellsCurrent w x m current) : TellsCurrent w y m current := by
  cases h with
  | listed hyields hvalues hoccurs => exact .listed (hrun.trans hyields) hvalues hoccurs
  | unlisted hfails hlists => exact .unlisted (hrun.trans hfails) hlists

theorem regionReport_eq_ok_iff {m : Meta} {offset : Nat} {digest : Bytes} {current : Bool} :
    (∃ report, regionReport m offset digest current = .ok report) ↔
      ∃ areas refs, m.flashAreas = .ok areas ∧ m.refs = .ok refs := by
  constructor
  · rintro ⟨report, h⟩
    obtain ⟨areas, hareas, h⟩ := bind_eq_ok_iff.mp h
    obtain ⟨refs, hrefs, -⟩ := bind_eq_ok_iff.mp h
    exact ⟨areas, refs, hareas, hrefs⟩
  · rintro ⟨areas, refs, hareas, hrefs⟩
    exact ⟨_, bind_eq_ok_iff.mpr ⟨areas, hareas, bind_eq_ok_iff.mpr ⟨refs, hrefs, rfl⟩⟩⟩

/-- The flag about the digest stands at the top of a report, and nothing else has its name. -/
theorem regionReport_eq {m : Meta} {offset : Nat} {digest : Bytes} {current : Bool}
    {report : List Toml.Section} (h : regionReport m offset digest current = .ok report) :
    ∃ size footer items areas refs,
      report = [⟨.none, [("offset", .number offset), ("size", .number size),
          ("hash", .text (Hex.encode digest)), ("hash_valid", .truth current)] ++
            (Toml.rows "flash_areas" areas).1 ++ (Toml.rows "mmr_refs" refs).1⟩,
          ⟨.table ["footer"], footer⟩] ++
        (Toml.rows "tlvs" items).2 ++ (Toml.rows "flash_areas" areas).2 ++
        (Toml.rows "mmr_refs" refs).2 ∧
      valuesIn "hash_valid" footer = [] ∧
      ∀ entries ∈ items ++ areas ++ refs, valuesIn "hash_valid" entries = [] := by
  obtain ⟨areas, -, h⟩ := bind_eq_ok_iff.mp h
  obtain ⟨refs, -, h⟩ := bind_eq_ok_iff.mp h
  obtain rfl := Except.ok.inj h
  refine ⟨_, _, _, _, _, rfl, rfl, fun entries he => ?_⟩
  rcases List.mem_append.mp he with he | he
  · rcases List.mem_append.mp he with he | he
    · obtain ⟨_, -, rfl⟩ := List.mem_map.mp he
      rfl
    · obtain ⟨_, -, rfl⟩ := List.mem_map.mp he
      rfl
  · obtain ⟨_, -, rfl⟩ := List.mem_map.mp he
    rfl

theorem valuesOf_regionReport {m : Meta} {offset : Nat} {digest : Bytes} {current : Bool}
    {report : List Toml.Section} (h : regionReport m offset digest current = .ok report) :
    valuesOf "hash_valid" report = [.truth current] := by
  obtain ⟨size, footer, items, areas, refs, rfl, hfooter, hrows⟩ := regionReport_eq h
  simp only [List.mem_append, or_imp, forall_and] at hrows
  obtain ⟨⟨hitems, hareas⟩, hrefs⟩ := hrows
  have htop (front : List (String × Toml.Plain)) :
      valuesIn "hash_valid" (front ++ (Toml.rows "flash_areas" areas).1 ++
        (Toml.rows "mmr_refs" refs).1) = valuesIn "hash_valid" front := by
    rw [valuesIn_append, valuesIn_append, valuesIn_rows (by decide), valuesIn_rows (by decide),
      List.append_nil, List.append_nil]
  rw [valuesOf_append, valuesOf_append, valuesOf_append, valuesOf_rows hitems,
    valuesOf_rows hareas, valuesOf_rows hrefs, valuesOf, List.flatMap_cons, List.flatMap_singleton,
    htop, hfooter]
  rfl

/-- The flag is a line of what is printed. -/
theorem occurs_regionReport {m : Meta} {offset : Nat} {digest : Bytes} {current : Bool}
    {report : List Toml.Section} (h : regionReport m offset digest current = .ok report) :
    Occurs s!"hash_valid = {current}\n" (Toml.renderReport report) := by
  obtain ⟨size, footer, items, areas, refs, rfl, -, -⟩ := regionReport_eq h
  have hline : s!"hash_valid = {current}\n" =
      "hash_valid" ++ " = " ++ (Toml.Plain.truth current).render ++ "\n" := by
    cases current <;> rfl
  rw [hline]
  have hentry : ("hash_valid", Toml.Plain.truth current) ∈
      [("offset", .number offset), ("size", .number size), ("hash", .text (Hex.encode digest)),
        ("hash_valid", .truth current)] := by
    simp only [List.mem_cons, true_or, or_true]
  exact (occurs_entry (List.mem_append_left _ (List.mem_append_left _ hentry))).trans
    (occurs_renderReport (List.mem_cons_self ..) (List.cons_ne_nil _ _))

theorem tellsCurrent_printRegion (w : Workspace) (m : Meta) (offset : Nat) (digest : Bytes)
    (current : Bool) :
    TellsCurrent w (printRegion m offset digest current) m current := by
  have hrun : (printRegion m offset digest current : InMemory Unit) w =
      (check (regionReport m offset digest current) >>= fun report =>
        output (Toml.renderReport report) : InMemory Unit)
        { w with printed := digestWarnings current ++ w.printed } := by
    cases current <;> rfl
  cases hreport : regionReport m offset digest current with
  | ok report =>
      rw [hreport] at hrun
      exact .listed hrun (valuesOf_regionReport hreport) (occurs_regionReport hreport)
  | error e =>
      rw [hreport] at hrun
      refine .unlisted hrun fun hlists => ?_
      obtain ⟨report, hok⟩ := regionReport_eq_ok_iff.mpr hlists
      rw [hreport] at hok
      cases hok

/-! ## Updating and showing -/

/-- What the steps come to: the region that was read, with the digest of the new binary. -/
theorem Updates.fresh_eq {request : Request} {data edited : Bytes} {stop : Nat}
    {start fresh : Factory} (h : Updates w request p data edited stop start fresh) :
    ∃ m, start.region = some m ∧ (∃ digest, m.HasDigest digest) ∧ InStep stop fresh ∧
      SameButDigest m start.offset edited fresh.binary ∧
      fresh = ⟨fresh.binary, some (m.withDigest (m.digestOf start.offset fresh.binary)),
        start.offset⟩ := by
  obtain ⟨m, offset, hcarries, rfl, rfl⟩ := Factory.parse_eq_ok_iff.mp h.parse
  have hrehash := h.rehash
  obtain ⟨⟨digest, hdigest⟩, -, -⟩ := (Factory.rehash_eq_ok_iff rfl).mp hrehash
  obtain ⟨hregion, hoffset, -⟩ := Factory.carries_of_rehash rfl hcarries.sound hdigest hrehash
  refine ⟨m, rfl, ⟨digest, hdigest⟩, Factory.inStep_of_rehash rfl hcarries.sound hdigest hrehash,
    Factory.sameButDigest_of_rehash rfl hcarries hrehash, ?_⟩
  rw [hoffset] at hregion
  rw [← hregion, ← hoffset]

/-- The region is found current in a file that holds the new binary. -/
theorem Updates.showRegion_run {request : Request} {data edited : Bytes} {stop : Nat}
    {start fresh : Factory} {m : Meta} (h : Updates w request p data edited stop start fresh)
    (hregion : start.region = some m) (hout : w'.load? p.output = some fresh.binary) :
    ((Request.showRegion p.output p.stop).run : InMemory Unit) w' =
      (printRegion (m.withDigest (m.digestOf start.offset fresh.binary)) start.offset
        (m.digestOf start.offset fresh.binary) true : InMemory Unit) w' := by
  obtain ⟨m', hregion', ⟨digest, hdigest⟩, hstep, hsame, hfresh⟩ := h.fresh_eq
  obtain rfl : m' = m := Option.some.inj (hregion'.symm.trans hregion)
  have hlength : fresh.binary.length = data.length := hsame.length.trans h.edits.length_eq
  have hparse : Factory.parse fresh.binary (some (p.stop.getD fresh.binary.length)) =
      .ok ⟨fresh.binary, some (m'.withDigest (m'.digestOf start.offset fresh.binary)),
        start.offset⟩ := by
    rw [hlength, h.edits.stop_eq, hstep.parse]
    exact congrArg Except.ok hfresh
  have hcurrent : ((m'.withDigest (m'.digestOf start.offset fresh.binary)).digestOf start.offset
      fresh.binary == m'.digestOf start.offset fresh.binary) = true := by
    rw [hdigest.digestOf_withDigest, beq_iff_eq]
  rw [Command.showRegion_run hout hparse (hdigest.withDigest Meta.length_digestOf), hcurrent]

/-- Writing and showing a region agree. -/
theorem update_then_show :
    (∀ request p w w', request.UpdatesRegion p → Yields (request.run : InMemory Unit) w () w' →
      ∃ data edited stop start fresh m, Updates w request p data edited stop start fresh ∧
        w'.load? p.output = some fresh.binary ∧ fresh.binary.length = data.length ∧
        start.region = some m ∧ SameButDigest m start.offset edited fresh.binary ∧
        ((Request.showRegion p.output p.stop).run : InMemory Unit) w' =
          (printRegion (m.withDigest (m.digestOf start.offset fresh.binary)) start.offset
            (m.digestOf start.offset fresh.binary) true : InMemory Unit) w' ∧
        TellsCurrent w' (Request.showRegion p.output p.stop).run
          (m.withDigest (m.digestOf start.offset fresh.binary)) true) ∧
    (∀ w path stop data m offset digest, w.load? path = some data →
      Factory.parse data (some (stop.getD data.length)) = .ok ⟨data, some m, offset⟩ →
      m.HasDigest digest →
      ∃ current, ((Request.showRegion path stop).run : InMemory Unit) w =
          (printRegion m offset digest current : InMemory Unit) w ∧
        (current = true ↔ digest = m.digestOf offset data) ∧
        TellsCurrent w (Request.showRegion path stop).run m current) ∧
    ∀ request p w, request.UpdatesRegion p →
      (¬∃ data edited stop start fresh, Updates w request p data edited stop start fresh) →
      ∃ texts printed, (request.run : InMemory Unit) w = (.error texts, { w with printed }) := by
  refine ⟨?_, ?_, ?_⟩
  · intro request p w w' hrequest h
    obtain ⟨data, edited, stop, start, fresh, out, hupdates, hbytes, hout⟩ :=
      yields_update hrequest h
    obtain ⟨m, hregion, -, hstep, hsame, -⟩ := hupdates.fresh_eq
    obtain rfl : fresh.binary = out := Except.ok.inj ((hstep.toBytes _).symm.trans hbytes)
    exact ⟨data, edited, stop, start, fresh, m, hupdates, hout,
      hsame.length.trans hupdates.edits.length_eq, hregion, hsame,
      hupdates.showRegion_run hregion hout,
      (tellsCurrent_printRegion ..).congr (hupdates.showRegion_run hregion hout)⟩
  · intro w path stop data m offset digest hload hparse hdigest
    refine ⟨_, showRegion_run hload hparse hdigest, ?_,
      (tellsCurrent_printRegion ..).congr (showRegion_run hload hparse hdigest)⟩
    rw [beq_iff_eq]
    exact eq_comm
  · intro request p w hrequest hnone
    rcases yields_or_fails (request.run : InMemory Unit) w with ⟨⟨⟩, w', hyields⟩ | ⟨texts, w', h⟩
    · obtain ⟨data, edited, stop, start, fresh, out, hupdates, -⟩ := yields_update hrequest hyields
      exact absurd ⟨data, edited, stop, start, fresh, hupdates⟩ hnone
    · obtain ⟨printed, rfl⟩ := failsClean_update hrequest w texts w' h
      exact ⟨texts, printed, h⟩

/-! ### A shorter key before a region -/

namespace Shortened

def region (digest : Bytes) : Meta where
  items := [⟨Meta.hashTag, digest⟩]
  footer := { size := 42, version := Meta.currentVersion, pad := 0xff }

def oldKey : Bytes := [0xa1, 0xa2, 0xa3, 0xa4]

def newKey : Bytes := [0xb1, 0xb2]

def data : Bytes :=
  [10, 11, 12, 4, 0, 0, 0] ++ oldKey ++ (region (Bytes.zeros 32)).bytes ++ [13]

/-- The binary with a digest: the key has another length now, and its slot ends in zeros. -/
def edited (digest : Bytes) : Bytes :=
  [10, 11, 12, 2, 0, 0, 0] ++ newKey ++ [0, 0] ++ (region digest).bytes ++ [13]

def digest : Bytes :=
  [66, 249, 231, 137, 173, 31, 209, 174, 213, 71, 197,
    135, 13, 165, 128, 238, 88, 150, 28, 32, 26, 235,
    242, 144, 171, 50, 64, 29, 107, 9, 74, 144]

def start : Factory := ⟨edited (Bytes.zeros 32), some (region (Bytes.zeros 32)), 11⟩

def fresh : Factory := ⟨edited digest, some (region digest), 11⟩

def workspace : Workspace where
  files := [(["in"], data), (["old"], oldKey), (["new"], newKey)]
  source := .cycle [0]

def patch (stop : Option Nat) : Patch :=
  { input := "in", output := "out", stop, erase := 0 }

def request : Request := .replace .kek (patch (some 53)) "old" "new"

def written : Workspace :=
  { workspace with
    files := (["out"], edited digest) :: workspace.files
    printed := ["\x1b[1m[*] New meta region hash: " ++ Hex.encode digest ++ "\x1b[0m\n"] }

theorem load?_in : workspace.load? "in" = some data :=
  IsFileName.load?_eq {}

theorem load?_old : workspace.load? "old" = some oldKey :=
  IsFileName.load?_eq {}

theorem load?_new : workspace.load? "new" = some newKey :=
  IsFileName.load?_eq {}

theorem store?_out (printed : List String) (bytes : Bytes) :
    { workspace with printed }.store? "out" bytes =
      some { workspace with files := (["out"], bytes) :: workspace.files, printed } :=
  IsFileName.store?_eq {} rfl

set_option maxRecDepth 100000 in
/-- The key is replaced, the region found and brought up to date, and the binary written. -/
theorem steps :
    Embedded.kek.replace data oldKey newKey = .ok start.binary ∧
      Factory.parse start.binary (some 53) = .ok start ∧ start.rehash 0 = .ok fresh ∧
      fresh.hash = .ok digest ∧ fresh.toBytes 0 = .ok (edited digest) := by
  decide +kernel

theorem yields_request : Yields (request.run : InMemory Unit) workspace () written := by
  obtain ⟨hreplace, hparse, hrehash, hhash, hbytes⟩ := steps
  refine yields_bind.mpr ⟨oldKey, workspace, yields_content.mpr ⟨load?_old, rfl⟩, ?_⟩
  refine yields_bind.mpr ⟨newKey, workspace, yields_content.mpr ⟨load?_new, rfl⟩, ?_⟩
  refine yields_bind.mpr ⟨data, workspace, yields_content.mpr ⟨load?_in, rfl⟩, ?_⟩
  refine yields_bind.mpr ⟨start.binary, workspace, yields_attempt.mpr ⟨hreplace, rfl⟩, ?_⟩
  refine yields_bind.mpr ⟨start, workspace, yields_attempt.mpr ⟨hparse, rfl⟩, ?_⟩
  refine yields_bind.mpr ⟨edited digest, { workspace with printed := written.printed }, ?_, ?_⟩
  · refine yields_bind.mpr ⟨fresh, workspace, yields_attempt.mpr ⟨hrehash, rfl⟩, ?_⟩
    refine yields_bind.mpr ⟨digest, workspace, yields_check.mpr ⟨hhash, rfl⟩, ?_⟩
    exact yields_bind.mpr ⟨(), _, rfl, yields_check.mpr ⟨hbytes, rfl⟩⟩
  · exact yields_save.mpr (store?_out _ _)

set_option maxRecDepth 100000 in
/-- The input has a region with a digest that is out of date, and the byte behind it belongs to no
region. -/
theorem input :
    Factory.parse data (some 53) = .ok ⟨data, some (region (Bytes.zeros 32)), 11⟩ ∧
      Bytes.zeros 32 ≠ (region (Bytes.zeros 32)).digestOf 11 data ∧
      (Factory.parse data (some data.length)).isOk = false := by
  decide +kernel

theorem hasDigest_region : (region (Bytes.zeros 32)).HasDigest (Bytes.zeros 32) := ⟨rfl, rfl⟩

theorem not_updates {data' edited' : Bytes} {stop : Nat} {start' fresh' : Factory} :
    ¬Updates workspace (.rehash (patch none)) (patch none) data' edited' stop start' fresh' := by
  intro h
  obtain ⟨-, -, hnone⟩ := input
  have hparse := h.parse
  cases h.edits with
  | rehash hload =>
      obtain rfl : data = data' := Option.some.inj (load?_in.symm.trans hload)
      have hok : Factory.parse data (some data.length) = .ok start' := hparse
      rw [hok] at hnone
      cases hnone

end Shortened

/-- A key is replaced by a shorter one and the region brought up to date; in the input it was out
of date, and a warning says so.  Without an end no region is found, and nothing is written. -/
theorem update_then_show_shortened :
    Yields (Shortened.request.run : InMemory Unit) Shortened.workspace () Shortened.written ∧
    (∃ m offset digest,
      ((Request.showRegion "out" (some 53)).run : InMemory Unit) Shortened.written =
        (printRegion m offset digest true : InMemory Unit) Shortened.written ∧
      TellsCurrent Shortened.written (Request.showRegion "out" (some 53)).run m true) ∧
    ((Request.showRegion "in" (some 53)).run : InMemory Unit) Shortened.workspace =
      (printRegion (Shortened.region (Bytes.zeros 32)) 11 (Bytes.zeros 32) false : InMemory Unit)
        Shortened.workspace ∧
    (∃ text, Occurs "hash_valid = false\n" text ∧
      Yields ((Request.showRegion "in" (some 53)).run : InMemory Unit) Shortened.workspace ()
        { Shortened.workspace with
          printed := [text,
            "\x1b[1;31m[WARNING] Stored hash does not match the binary contents\x1b[0m\n"] }) ∧
    ∃ texts printed,
      ((Request.rehash (Shortened.patch none)).run : InMemory Unit) Shortened.workspace =
        (.error texts, { Shortened.workspace with printed }) := by
  obtain ⟨hupdate, hshow, hfail⟩ := update_then_show
  obtain ⟨hparse, hstale, -⟩ := Shortened.input
  obtain ⟨current, hrun, hcurrent, htells⟩ := hshow _ _ (some 53) _ _ _ _ Shortened.load?_in
    hparse Shortened.hasDigest_region
  obtain rfl : current = false := by
    rw [← Bool.not_eq_true, hcurrent]
    exact hstale
  refine ⟨Shortened.yields_request, ?_, hrun, ?_, ?_⟩
  · obtain ⟨_, _, _, _, _, _, -, -, -, -, -, hshown, htells⟩ := hupdate _
      (Shortened.patch (some 53)) _ _ (.replace rfl) Shortened.yields_request
    exact ⟨_, _, _, hshown, htells⟩
  · cases htells with
    | listed hprinted _ hoccurs => exact ⟨_, hoccurs, hprinted⟩
    | unlisted _ hlists => exact absurd ⟨[], [], rfl, rfl⟩ hlists
  · exact hfail _ _ _ .rehash fun ⟨_, _, _, _, _, h⟩ => Shortened.not_updates h

end Firmware.Command
