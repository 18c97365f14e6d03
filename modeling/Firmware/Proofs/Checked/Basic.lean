import Firmware.Checked.Basic
import Firmware.Proofs.Bytes
import Firmware.Proofs.Except

/-!
# Runs without a fault

`InBounds x r` says that a run with checked accesses meets every demand and comes to `r`, which may
be an error of its own.  It is closed under the ways to put runs together, so a function with checked
accesses is shown to be without a fault from its parts, and shown at the same time to compute what
the function on lists computes.

Reading tagged values is one loop for all kinds of them.  Its invariant is that the offset lies
within the buffer; `InBounds.readValues` carries it through, for any function on lists that `Reads`
values of the kind off the front.
-/

namespace Firmware.Checked

/-- A run meets no fault and comes to a result. -/
def InBounds {ε α : Type} (x : Run ε α) (r : Except ε α) : Prop := x.run = .ok r

/-! ## Accesses -/

section Accesses

variable {α : Type} {xs : List α} {i start stop : Nat}

theorem index_eq_ok {x : α} (h : xs[i]? = some x) : index xs i = .ok x := by
  rw [index, h]

theorem range_eq_ok (hstart : start ≤ stop) (hstop : stop ≤ xs.length) :
    range xs start stop = .ok ((xs.drop start).take (stop - start)) := if_pos ⟨hstart, hstop⟩

theorem rangeFrom_eq_ok (h : start ≤ xs.length) : rangeFrom xs start = .ok (xs.drop start) := by
  have hall : (xs.drop start).length ≤ xs.length - start := Nat.le_of_eq List.length_drop
  rw [rangeFrom, range_eq_ok h (Nat.le_refl _), List.take_of_length_le hall]

theorem rangeTo_eq_ok (h : stop ≤ xs.length) : rangeTo xs stop = .ok (xs.take stop) :=
  range_eq_ok (Nat.zero_le _) h

theorem splitAt_eq_ok (h : i ≤ xs.length) : splitAt xs i = .ok (xs.take i, xs.drop i) := if_pos h

theorem modifyAt_eq_ok {x y : α} {f : α → Except Fault α} (hx : xs[i]? = some x)
    (hf : f x = .ok y) : modifyAt xs i f = .ok (xs.set i y) := by
  rw [modifyAt, index_eq_ok hx]
  show f x >>= (fun z => _) = _
  rw [hf]
  rfl

theorem copy_eq_ok {target source : Bytes} (h : target.length = source.length) :
    copy target source = .ok source := if_pos h

theorem sub_eq_ok {a b : Nat} (h : b ≤ a) : sub a b = .ok (a - b) := if_pos h

/-- Copying to the place of bytes of the same size overwrites them. -/
theorem copyTo_eq_ok {bs source : Bytes} (hsize : start + source.length = stop)
    (hstop : stop ≤ bs.length) :
    copyTo bs start stop source = .ok (Bytes.overwrite bs start source) := by
  obtain rfl := hsize
  have htarget : ((bs.drop start).take (start + source.length - start)).length = source.length := by
    rw [List.length_take, List.length_drop]
    omega
  rw [copyTo, range_eq_ok (Nat.le_add_right _ _) hstop]
  show copy _ source >>= (fun b => _) = _
  rw [copy_eq_ok htarget]
  rfl

/-- A place that reaches behind the end is a fault. -/
example : copyTo [1, 2, 3] 2 4 [5, 6] = .error (.range 2 4 3) := rfl

/-- A loop whose body meets no fault. -/
theorem mapM_eq_ok {β : Type} {f : α → Except Fault β} {g : α → β} (h : ∀ x ∈ xs, f x = .ok (g x)) :
    xs.mapM f = .ok (xs.map g) := by
  rw [mapM_eq_ok_iff, List.forall₂_map_right_iff, List.forall₂_same]
  exact h

/-- The element behind those that stand before a position. -/
theorem getElem?_append_length (before : List α) (x : α) (behind : List α) :
    (before ++ x :: behind)[before.length]? = some x := by
  rw [List.getElem?_append_right (Nat.le_refl _), Nat.sub_self]
  rfl

/-- A loop over the positions of a list, from one of them on.  What its body finds at a position may
depend on the elements before it and behind it; `spec` collects that of the elements `behind`. -/
theorem mapM_zipIdx_from {β : Type} {f : α → Nat → Except Fault (List β)}
    {spec : List α → List α → List β} (hnil : ∀ before, spec before [] = [])
    (hcons : ∀ before x behind, before ++ x :: behind = xs → ∃ first,
      f x before.length = .ok first ∧
        spec before (x :: behind) = first ++ spec (before ++ [x]) behind)
    (before behind : List α) (hxs : before ++ behind = xs) :
    ∃ found, ((behind.zipIdx before.length).mapM fun e => f e.1 e.2) = .ok found ∧
      found.flatten = spec before behind := by
  induction behind generalizing before with
  | nil => exact ⟨[], rfl, (hnil before).symm⟩
  | cons x behind ih =>
      obtain ⟨first, hfirst, hspec⟩ := hcons before x behind hxs
      obtain ⟨found, hfound, hflat⟩ := ih (before ++ [x]) ((List.append_cons _ _ _).symm.trans hxs)
      rw [List.length_append, List.length_singleton] at hfound
      refine ⟨first :: found, ?_, ?_⟩
      · rw [List.zipIdx_cons, List.mapM_cons]
        show (f x before.length >>= fun first => _) = _
        rw [hfirst]
        show (_ >>= fun found => _) = _
        rw [hfound]
        rfl
      · rw [List.flatten_cons, hflat, hspec]

/-- A loop over all positions of a list. -/
theorem mapM_zipIdx {β : Type} (xs : List α) (f : α → Nat → Except Fault (List β))
    (spec : List α → List α → List β) (hnil : ∀ before, spec before [] = [])
    (hcons : ∀ before x behind, before ++ x :: behind = xs → ∃ first,
      f x before.length = .ok first ∧
        spec before (x :: behind) = first ++ spec (before ++ [x]) behind) :
    ∃ found, (xs.zipIdx.mapM fun e => f e.1 e.2) = .ok found ∧ found.flatten = spec [] xs :=
  mapM_zipIdx_from hnil hcons [] xs rfl

end Accesses

/-! ## Ways to put runs together -/

namespace InBounds

variable {ε ε' α β : Type} {x : Run ε α} {f : α → Run ε β} {a : α} {e : ε} {r : Except ε β}

theorem pure (a : α) : InBounds (pure a : Run ε α) (.ok a) := rfl

theorem throw (e : ε) : InBounds (throw e : Run ε α) (.error e) := rfl

theorem ofResult (r : Except ε α) : InBounds (ofResult r) r := rfl

theorem access {x : Except Fault α} (h : x = .ok a) : InBounds (access x : Run ε α) (.ok a) := by
  rw [h]
  rfl

theorem bind_ok (hx : InBounds x (.ok a)) (hf : InBounds (f a) r) : InBounds (x >>= f) r := by
  rw [InBounds, ExceptT.run_bind, hx]
  exact hf

theorem bind_error (hx : InBounds x (.error e)) : InBounds (x >>= f) (.error e) := by
  rw [InBounds, ExceptT.run_bind, hx]
  rfl

/-- Behind a run, what follows has to meet no fault for the results that there can be, in whatever
way the result depends on that of the run. -/
theorem bind_cases {s : Except ε α} (hx : InBounds x s) (herror : ∀ e, s = .error e → r = .error e)
    (hok : ∀ a, s = .ok a → InBounds (f a) r) : InBounds (x >>= f) r := by
  cases s with
  | error e =>
      rw [herror e rfl]
      exact bind_error hx
  | ok a => exact bind_ok hx (hok a rfl)

theorem bind {s : Except ε α} {g : α → Except ε β} (hx : InBounds x s)
    (hf : ∀ a, s = .ok a → InBounds (f a) (g a)) : InBounds (x >>= f) (s >>= g) := by
  refine hx.bind_cases ?_ ?_
  · rintro e rfl
    rfl
  · rintro a rfl
    exact hf a rfl

theorem adapt {s : Except ε α} (hx : InBounds x s) (h : ε → ε') :
    InBounds (ExceptT.adapt h x) (s.mapError h) := by
  show Except.mapError h <$> x.run = _
  rw [hx]
  rfl

/-- Behind a run whose errors become part of others. -/
theorem adapt_bind {s : Except ε α} {f : α → Run ε' β} {r : Except ε' β} {h : ε → ε'}
    (hx : InBounds x s) (herror : ∀ e, s = .error e → r = .error (h e))
    (hok : ∀ a, s = .ok a → InBounds (f a) r) : InBounds (ExceptT.adapt h x >>= f) r := by
  refine (hx.adapt h).bind_cases ?_ ?_
  · intro e he
    cases s with
    | error e' =>
        cases he
        exact herror e' rfl
    | ok a => cases he
  · intro a ha
    exact hok a (mapError_eq_ok_iff.mp ha)

theorem mapM {as : List α} {f : α → Run ε β} {g : α → Except ε β} (h : ∀ a, InBounds (f a) (g a)) :
    InBounds (as.mapM f) (as.mapM g) := by
  induction as with
  | nil => exact pure []
  | cons a as ih =>
      rw [List.mapM_cons, List.mapM_cons]
      exact (h a).bind fun b _ => ih.bind fun bs _ => pure (b :: bs)

end InBounds

/-! ## Tagged values -/

/-- A function that reads the values of a kind until the input is used up.  It is told how many
values were read before, and where the input stands. -/
structure Reads {α ε : Type} (kind : ValueKind α ε) (all : Nat → Nat → Bytes → Except ε (List α)) :
    Prop where
  header : ∀ {bs len value behind}, kind.header? bs = some (len, value, behind) →
    behind = bs.drop kind.headerSize ∧ bs.length = kind.headerSize + behind.length
  nil : ∀ index offset, all index offset [] = .ok []
  headerTruncated : ∀ {index offset bs}, bs ≠ [] → kind.header? bs = none →
    all index offset bs = .error (kind.headerTruncated index offset)
  dataTruncated : ∀ {index offset bs len value behind},
    kind.header? bs = some (len, value, behind) → behind.length < len →
    all index offset bs = .error (kind.dataTruncated index len behind.length)
  cons : ∀ {index offset bs len value behind},
    kind.header? bs = some (len, value, behind) → len ≤ behind.length → all index offset bs =
      (all (index + 1) (offset + (kind.headerSize + len)) (behind.drop len)).map
        (value (behind.take len) :: ·)

/-- Values that are put in front of the later ones come behind the earlier ones. -/
theorem map_append_cons {ε α : Type} (r : Except ε (List α)) (values : List α) (v : α) :
    (r.map (v :: ·)).map (values ++ ·) = r.map (values ++ [v] ++ ·) := by
  cases r with
  | error e => rfl
  | ok ts => exact congrArg Except.ok (List.append_assoc values [v] ts).symm

/-- Reading by position, from any offset within the buffer on, comes to what reading the rest of the
buffer comes to. -/
theorem InBounds.readValues {α ε : Type} {kind : ValueKind α ε}
    {all : Nat → Nat → Bytes → Except ε (List α)} (h : Reads kind all)
    (data : Bytes) (values : List α) (offset : Nat) (hoffset : offset ≤ data.length) :
    InBounds (readValues kind data values offset)
      ((all values.length offset (data.drop offset)).map (values ++ ·)) := by
  fun_induction Checked.readValues kind data values offset with
  | case1 values offset hlt ih =>
      refine bind_ok (access (rangeFrom_eq_ok hoffset)) ?_
      cases hheader : kind.header? (data.drop offset) with
      | none =>
          have hne : data.drop offset ≠ [] := by
            rw [ne_eq, List.drop_eq_nil_iff]
            exact Nat.not_le_of_lt hlt
          rw [h.headerTruncated hne hheader]
          exact throw _
      | some header =>
          obtain ⟨len, value, behind⟩ := header
          obtain ⟨hbehind, hlength⟩ := h.header hheader
          dsimp only
          split
          · rename_i hshort
            rw [h.dataTruncated hheader hshort]
            exact throw _
          · rename_i hroom
            have hlen := Nat.le_of_not_lt hroom
            -- the next offset is within the buffer, since the data is
            have hnext : offset + (kind.headerSize + len) ≤ data.length := by
              rw [List.length_drop] at hlength
              omega
            have hrest : data.drop (offset + (kind.headerSize + len)) = behind.drop len := by
              rw [hbehind, List.drop_drop, List.drop_drop, ← Nat.add_assoc]
            have hloop := ih len value behind (behind.take len) hnext
            rw [hrest, List.length_append, List.length_singleton] at hloop
            rw [h.cons hheader hlen, map_append_cons]
            exact bind_ok (access (rangeTo_eq_ok hlen)) hloop
  | case2 values offset hge =>
      have hend : data.drop offset = [] := List.drop_eq_nil_iff.mpr (Nat.le_of_not_lt hge)
      rw [hend, h.nil, Except.map, List.append_nil]
      exact pure values

/-- Reading a whole buffer. -/
theorem InBounds.readAll {α ε : Type} {kind : ValueKind α ε}
    {all : Nat → Nat → Bytes → Except ε (List α)} (h : Reads kind all) (data : Bytes) :
    InBounds (Checked.readValues kind data [] 0) (all 0 0 data) := by
  have hloop := InBounds.readValues h data [] 0 (Nat.zero_le _)
  have hself : (all 0 0 data).map (([] : List α) ++ ·) = all 0 0 data := by
    cases all 0 0 data with
    | error e => rfl
    | ok ts => rfl
  rw [List.length_nil, List.drop_zero, hself] at hloop
  exact hloop

end Firmware.Checked
