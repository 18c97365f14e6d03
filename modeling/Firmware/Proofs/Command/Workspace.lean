import Firmware.Proofs.Command.Session

/-!
# Files that commands write

A file that has been written is found again under the same path, `load?_of_store?`: where a path
leads depends on the directories only, and writing a file makes none.

A command prints before it writes.  `FailsClean` says that a session that fails has done no more
than print.  Sessions that only read and print are such sessions (`OnlyPrints`), also with one write
behind them, since a write that fails changes nothing.
-/

namespace Firmware.Command

variable {α β ε : Type} {w w' : Workspace}

/-! ## Paths -/

namespace Workspace

theorem follow?_congr (h : w'.directories = w.directories) (l : Location) (names : List String) :
    w'.follow? l names = w.follow? l names := by
  have hdirectory : ∀ l, w'.isDirectory l = w.isDirectory l := by
    intro l
    rw [isDirectory, isDirectory, h]
  induction names generalizing l with
  | nil => rfl
  | cons name names ih => simp only [follow?, hdirectory, ih]

theorem locate?_congr (h : w'.directories = w.directories) (path : String) :
    w'.locate? path = w.locate? path := by
  simp only [locate?, follow?_congr h]

theorem load?_congr (hfiles : w'.files = w.files) (h : w'.directories = w.directories)
    (path : String) : w'.load? path = w.load? path := by
  simp only [load?, file?, locate?_congr h, hfiles]

/-- A written file is found again. -/
theorem load?_of_store? {path : String} {data : Bytes} (h : w.store? path data = some w') :
    w'.load? path = some data := by
  unfold store? at h
  simp only [Option.bind_eq_bind, Option.bind_eq_some_iff] at h
  obtain ⟨l, hlocate, h⟩ := h
  split at h
  · cases h
  · rename_i hfile
    obtain rfl := Option.some.inj h
    have hpath : asksDirectory path = false := by
      simp only [Bool.or_eq_true, not_or, Bool.not_eq_true] at hfile
      exact hfile.1.1
    have hdirectories : (w.put l data).directories = w.directories := rfl
    rw [load?, locate?_congr hdirectories, hlocate]
    simp [hpath, file?, put]

end Workspace

/-! ## Steps -/

theorem yields_check [HasTexts ε] {r : Except ε α} {a : α} :
    Yields (check r : InMemory α) w a w' ↔ r = .ok a ∧ w = w' := by
  cases r with
  | ok b => simp only [check, yields_pure, Except.ok.injEq]
  | error e =>
      constructor
      · intro h
        exact absurd h not_yields_throw
      · rintro ⟨h, -⟩
        cases h

/-- Storing a file, where a failure shows in the result only. -/
theorem store_run (path : String) (data : Bytes) (w : Workspace) :
    (liftM (Host.store path data : StateM Workspace Bool) : InMemory Bool) w =
      match w.store? path data with
      | some w' => (.ok true, w')
      | none => (.ok false, w) := by
  have htry : (Host.store path data : StateM Workspace Bool) w =
      match w.store? path data with
      | some w' => (true, w')
      | none => (false, w) := rfl
  show (Except.ok ((Host.store path data : StateM Workspace Bool) w).1,
    ((Host.store path data : StateM Workspace Bool) w).2) = _
  rw [htry]
  cases w.store? path data with
  | some w' => rfl
  | none => rfl

theorem yields_save {what path : String} {data : Bytes} {u : Unit} :
    Yields (save what path data : InMemory Unit) w u w' ↔ w.store? path data = some w' := by
  rw [save, yields_bind]
  constructor
  · rintro ⟨stored, w₁, hstore, hdemand⟩
    obtain ⟨hstored, rfl⟩ := yields_demand.mp hdemand
    rw [Yields, store_run] at hstore
    split at hstore
    · rename_i h
      cases hstore
      exact h
    · cases hstore
      cases hstored
  · intro h
    refine ⟨true, w', ?_, yields_demand.mpr ⟨rfl, rfl⟩⟩
    rw [Yields, store_run, h]

/-! ## What a failure leaves behind -/

/-- A session that changes nothing but what has been printed. -/
def OnlyPrints (x : InMemory α) : Prop := ∀ w, ∃ printed, (x w).2 = { w with printed }

/-- A session that has changed nothing but what has been printed if it fails. -/
def FailsClean (x : InMemory α) : Prop :=
  ∀ w texts w', Fails x w texts w' → ∃ printed, w' = { w with printed }

theorem OnlyPrints.failsClean {x : InMemory α} (h : OnlyPrints x) : FailsClean x := by
  intro w texts w' hfails
  obtain ⟨printed, hprinted⟩ := h w
  exact ⟨printed, (congrArg Prod.snd hfails).symm.trans hprinted⟩

namespace OnlyPrints

theorem pure (a : α) : OnlyPrints (Pure.pure a : InMemory α) := fun w => ⟨w.printed, rfl⟩

theorem throw (texts : Failure) : OnlyPrints (throw texts : InMemory α) := fun w => ⟨w.printed, rfl⟩

theorem bind {x : InMemory α} {f : α → InMemory β} (hx : OnlyPrints x)
    (hf : ∀ a, OnlyPrints (f a)) : OnlyPrints (x >>= f) := by
  intro w
  have hrun := run_bind x f w
  obtain ⟨printed, hprinted⟩ := hx w
  rcases hresult : x w with ⟨r, w₁⟩
  rw [hresult] at hrun hprinted
  obtain rfl : w₁ = { w with printed } := hprinted
  rw [hrun]
  cases r with
  | error texts => exact ⟨printed, rfl⟩
  | ok a => exact hf a { w with printed }

theorem attempt [HasTexts ε] (what : String) (r : Except ε α) :
    OnlyPrints (attempt what r : InMemory α) := by
  cases r with
  | ok a => exact pure a
  | error e => exact throw _

theorem check [HasTexts ε] (r : Except ε α) : OnlyPrints (check r : InMemory α) := by
  cases r with
  | ok a => exact pure a
  | error e => exact throw _

theorem demand (what : String) (o : Option α) : OnlyPrints (demand what o : InMemory α) := by
  cases o with
  | some a => exact pure a
  | none => exact throw _

theorem load (path : String) :
    OnlyPrints (liftM (Host.load path : StateM Workspace (Option Bytes)) : InMemory _) :=
  fun w => ⟨w.printed, rfl⟩

theorem content (what path : String) : OnlyPrints (content what path : InMemory Bytes) :=
  bind (load path) fun _ => demand _ _

theorem status (line : String) : OnlyPrints (status line : InMemory Unit) := fun _ => ⟨_, rfl⟩

end OnlyPrints

theorem failsClean_save (what path : String) (data : Bytes) :
    FailsClean (save what path data : InMemory Unit) := by
  intro w texts w' h
  rcases fails_bind.mp h with hstore | ⟨stored, w₁, hstore, hdemand⟩
  · rw [Fails, store_run] at hstore
    split at hstore
    · cases hstore
    · cases hstore
  · obtain ⟨printed, hprinted⟩ := (OnlyPrints.demand _ _).failsClean _ _ _ hdemand
    rw [Yields, store_run] at hstore
    split at hstore
    · cases hstore
      cases hdemand
    · cases hstore
      exact ⟨printed, hprinted⟩

/-- A write, or whatever else fails clean, behind steps that only print. -/
theorem OnlyPrints.bind_failsClean {x : InMemory α} {f : α → InMemory β} (hx : OnlyPrints x)
    (hf : ∀ a, FailsClean (f a)) : FailsClean (x >>= f) := by
  intro w texts w' h
  rcases fails_bind.mp h with hfails | ⟨a, w₁, hyields, hfails⟩
  · exact hx.failsClean w texts w' hfails
  · obtain ⟨printed, hprinted⟩ := hx w
    obtain rfl : w₁ = { w with printed } := (congrArg Prod.snd hyields).symm.trans hprinted
    obtain ⟨printed', rfl⟩ := hf a _ texts w' hfails
    exact ⟨printed', rfl⟩

end Firmware.Command
