import Firmware.Proofs.Except
import Firmware.Random

/-!
# Runs that succeed and runs that fail

Building an image, changing a binary and running a command are computations over a state that may
fail.  `Yields x s a s'` says that such a computation, started in `s`, succeeds with the result `a`
and leaves `s'`.  The lemmas open it along the way in which a computation is put together, so that
the success of a long `do` block becomes the list of the successes of its steps.

A computation that fails leaves a state, too.  `Fails x s e s'` says which; a `do` block fails in
one of its steps, after the steps before it have succeeded.
-/

namespace Firmware

/-! ## Computations over a state -/

section Yields

variable {σ ε α β : Type} {s s' : σ}

/-- A computation succeeds from a state, with a result and a new state. -/
def Yields (x : ExceptT ε (StateM σ) α) (s : σ) (a : α) (s' : σ) : Prop := x s = (.ok a, s')

theorem yields_pure {a b : α} :
    Yields (pure a : ExceptT ε (StateM σ) α) s b s' ↔ a = b ∧ s = s' := by
  constructor
  · intro h
    cases h
    exact ⟨rfl, rfl⟩
  · rintro ⟨rfl, rfl⟩
    rfl

theorem not_yields_throw {e : ε} {a : α} :
    ¬Yields (throw e : ExceptT ε (StateM σ) α) s a s' := by
  intro h
  cases h

theorem run_bind (x : ExceptT ε (StateM σ) α) (f : α → ExceptT ε (StateM σ) β) (s : σ) :
    (x >>= f) s =
      match x s with
      | (.ok a, s₁) => f a s₁
      | (.error e, s₁) => (.error e, s₁) := by
  show ExceptT.bindCont f (x s).1 (x s).2 = _
  rcases x s with ⟨r, s₁⟩
  cases r with
  | error e => rfl
  | ok a => rfl

theorem yields_bind {x : ExceptT ε (StateM σ) α} {f : α → ExceptT ε (StateM σ) β} {b : β} :
    Yields (x >>= f) s b s' ↔ ∃ a s₁, Yields x s a s₁ ∧ Yields (f a) s₁ b s' := by
  have hrun := run_bind x f s
  unfold Yields
  rw [hrun]
  constructor
  · intro h
    rcases hx : x s with ⟨r, s₁⟩
    rw [hx] at h
    cases r with
    | error e => cases h
    | ok a => exact ⟨a, s₁, rfl, h⟩
  · rintro ⟨a, s₁, hx, h⟩
    rw [hx]
    exact h

/-- What a computation comes to behind one that succeeds. -/
theorem Yields.bind_run {x : ExceptT ε (StateM σ) α} {a : α} (h : Yields x s a s')
    (f : α → ExceptT ε (StateM σ) β) : (x >>= f) s = f a s' := by
  rw [run_bind, h]

theorem yields_map {x : ExceptT ε (StateM σ) α} {f : α → β} {b : β} :
    Yields (f <$> x) s b s' ↔ ∃ a, Yields x s a s' ∧ f a = b := by
  rw [map_eq_pure_bind, yields_bind]
  constructor
  · rintro ⟨a, s₁, hx, h⟩
    obtain ⟨rfl, rfl⟩ := yields_pure.mp h
    exact ⟨a, hx, rfl⟩
  · rintro ⟨a, hx, rfl⟩
    exact ⟨a, s', hx, yields_pure.mpr ⟨rfl, rfl⟩⟩

theorem yields_get {a : σ} :
    Yields (get : ExceptT ε (StateM σ) σ) s a s' ↔ s = a ∧ s = s' := by
  constructor
  · intro h
    cases h
    exact ⟨rfl, rfl⟩
  · rintro ⟨rfl, rfl⟩
    rfl

/-- A result of a loop over a list has one entry for each of the list's, in the same order, and each
entry is the result of one run of the body. -/
theorem Yields.forall₂_of_mapM {f : α → ExceptT ε (StateM σ) β} {as : List α} {bs : List β}
    (h : Yields (as.mapM f) s bs s') :
    List.Forall₂ (fun a b => ∃ s₁ s₂, Yields (f a) s₁ b s₂) as bs := by
  induction as generalizing s s' bs with
  | nil =>
      obtain ⟨rfl, -⟩ := yields_pure.mp h
      exact .nil
  | cons a as ih =>
      rw [List.mapM_cons] at h
      obtain ⟨b, s₁, hb, h⟩ := yields_bind.mp h
      obtain ⟨bs', s₂, hbs, h⟩ := yields_bind.mp h
      obtain ⟨rfl, -⟩ := yields_pure.mp h
      exact .cons ⟨s, s₁, hb⟩ (ih hbs)

/-- A loop whose body reads the state and leaves it as it is. -/
theorem yields_mapM_of_reads {f : α → ExceptT ε (StateM σ) β} {R : σ → α → β → Prop}
    (hf : ∀ a s b s', Yields (f a) s b s' ↔ R s a b ∧ s = s') {as : List α} {bs : List β} :
    Yields (as.mapM f) s bs s' ↔ List.Forall₂ (R s) as bs ∧ s = s' := by
  induction as generalizing bs with
  | nil =>
      rw [List.mapM_nil, yields_pure, List.forall₂_nil_left_iff]
      exact and_congr_left' eq_comm
  | cons a as ih =>
      simp only [List.mapM_cons, yields_bind, yields_pure, hf, List.forall₂_cons_left_iff]
      constructor
      · rintro ⟨b, _, ⟨hb, rfl⟩, bs', _, hbs, rfl, rfl⟩
        obtain ⟨hall, rfl⟩ := ih.mp hbs
        exact ⟨⟨b, bs', hb, hall, rfl⟩, rfl⟩
      · rintro ⟨⟨b, bs', hb, hall, rfl⟩, rfl⟩
        exact ⟨b, s, ⟨hb, rfl⟩, bs', s, ih.mpr ⟨hall, rfl⟩, rfl, rfl⟩

end Yields

section Fails

variable {σ ε α β : Type} {s s' : σ} {e : ε}

/-- A computation fails from a state, with an error and a new state. -/
def Fails (x : ExceptT ε (StateM σ) α) (s : σ) (e : ε) (s' : σ) : Prop := x s = (.error e, s')

theorem not_fails_get : ¬Fails (get : ExceptT ε (StateM σ) σ) s e s' := by
  intro h
  cases h

theorem fails_throw {e' : ε} :
    Fails (throw e : ExceptT ε (StateM σ) α) s e' s' ↔ e = e' ∧ s = s' := by
  constructor
  · intro h
    cases h
    exact ⟨rfl, rfl⟩
  · rintro ⟨rfl, rfl⟩
    rfl

theorem fails_bind {x : ExceptT ε (StateM σ) α} {f : α → ExceptT ε (StateM σ) β} :
    Fails (x >>= f) s e s' ↔ Fails x s e s' ∨ ∃ a s₁, Yields x s a s₁ ∧ Fails (f a) s₁ e s' := by
  have hrun := run_bind x f s
  unfold Fails Yields
  rw [hrun]
  rcases hx : x s with ⟨r, s₁⟩
  cases r with
  | error e' =>
      constructor
      · intro h
        cases h
        exact .inl rfl
      · rintro (h | ⟨a, s₂, h, -⟩)
        · cases h
          rfl
        · cases h
  | ok a =>
      constructor
      · intro h
        exact .inr ⟨a, s₁, rfl, h⟩
      · rintro (h | ⟨b, s₂, h, hf⟩)
        · cases h
        · cases h
          exact hf

end Fails

section Both

variable {σ ε α : Type} {s s' : σ} {e : ε}

/-- A run either succeeds or fails. -/
theorem yields_or_fails (x : ExceptT ε (StateM σ) α) (s : σ) :
    (∃ a s', Yields x s a s') ∨ ∃ e s', Fails x s e s' := by
  rcases h : x s with ⟨r, s'⟩
  cases r with
  | error e => exact .inr ⟨e, s', h⟩
  | ok a => exact .inl ⟨a, s', h⟩

theorem Yields.not_fails {x : ExceptT ε (StateM σ) α} {a : α} {s₁ : σ} (h : Yields x s a s₁) :
    ¬Fails x s e s' := by
  intro hfails
  cases h.symm.trans hfails

theorem yields_monadLift {r : Except ε α} {a : α} :
    Yields (monadLift r : ExceptT ε (StateM σ) α) s a s' ↔ r = .ok a ∧ s = s' := by
  constructor
  · intro h
    cases r with
    | error e => cases h
    | ok b =>
        cases h
        exact ⟨rfl, rfl⟩
  · rintro ⟨rfl, rfl⟩
    rfl

theorem fails_monadLift {r : Except ε α} :
    Fails (monadLift r : ExceptT ε (StateM σ) α) s e s' ↔ r = .error e ∧ s = s' := by
  constructor
  · intro h
    cases r with
    | ok b => cases h
    | error e' =>
        cases h
        exact ⟨rfl, rfl⟩
  · rintro ⟨rfl, rfl⟩
    rfl

end Both

/-! ## Drawing -/

namespace Random

variable {ε ε' α : Type} {s s' : RandomSource}

theorem eval_eq_ok_iff {x : Random ε α} {a : α} :
    x.eval s = .ok a ↔ ∃ s', Yields x s a s' := by
  constructor
  · intro h
    exact ⟨(x s).2, Prod.ext h rfl⟩
  · rintro ⟨s', h⟩
    exact congrArg Prod.fst h

theorem yields_lift {r : Except ε α} {a : α} :
    Yields (Random.lift r) s a s' ↔ r = .ok a ∧ s = s' := by
  constructor
  · intro h
    exact Prod.mk.inj h
  · rintro ⟨rfl, rfl⟩
    rfl

theorem yields_mapError {f : ε → ε'} {x : Random ε α} {a : α} :
    Yields (x.mapError f) s a s' ↔ Yields x s a s' := by
  constructor
  · intro h
    obtain ⟨hr, hs⟩ := Prod.mk.inj h
    exact Prod.ext (mapError_eq_ok_iff.mp hr) hs
  · intro h
    have hr : (x s).1 = .ok a := congrArg Prod.fst h
    have hs : (x s).2 = s' := congrArg Prod.snd h
    exact Prod.ext (mapError_eq_ok_iff.mpr hr) hs

theorem yields_draw {n : Nat} {bytes : Bytes} :
    Yields (draw n : Random ε Bytes) s bytes s' ↔ s.draw n = (bytes, s') := by
  constructor
  · intro h
    obtain ⟨hb, hs⟩ := Prod.mk.inj h
    exact Prod.ext (Except.ok.inj hb) hs
  · intro h
    have hb : (s.draw n).1 = bytes := congrArg Prod.fst h
    have hs : (s.draw n).2 = s' := congrArg Prod.snd h
    exact Prod.ext (congrArg Except.ok hb) hs

theorem length_of_yields_draw {n : Nat} {bytes : Bytes}
    (h : Yields (draw n : Random ε Bytes) s bytes s') : bytes.length = n := by
  have hdraw := yields_draw.mp h
  rw [RandomSource.draw] at hdraw
  obtain ⟨rfl, -⟩ := Prod.mk.inj hdraw
  rw [List.length_map, List.length_range]

end Random

end Firmware
