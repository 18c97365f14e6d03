import Firmware.Sink

/-!
# What a script writes

The bytes of a script on a store that never runs full, in terms of the ways to build one.  A format
writer fails, or puts pieces in front of another script, or renames another script, and the last two
are what `toBytes_prepend_eq_ok_iff` and `toBytes_map_eq_ok_iff` are about.

On a store that may run full, one write keeps what there is room for.  `Tally.Takes` says so of one
piece, and since it is closed under putting pieces together, of a whole script
(`takes_writeChunks`): where the pieces end plays no part in what is stored, but decides which of
them the error names (`writeChunks_snd`).  `cuts_of_toBytes` and `cuts_of_failure` say what becomes
of a run that starts with an empty store.
-/

namespace Firmware.Script

variable {ν ν' ε ε' : Type}

theorem toBytes_eq_ok_iff {s : Script ν ε} {bs : Bytes} :
    s.toBytes = .ok bs ↔ s.failure = none ∧ s.chunks.flatMap (·.2) = bs := by
  unfold toBytes
  cases s.failure with
  | none => simp
  | some e => simp

theorem toBytes_eq_error_iff {s : Script ν ε} {e : ε} :
    s.toBytes = .error e ↔ s.failure = some e := by
  unfold toBytes
  cases s.failure with
  | none => simp
  | some e' => simp

theorem toBytes_prepend_eq_ok_iff {chunks : List (ν × Bytes)} {s : Script ν ε} {bs : Bytes} :
    (s.prepend chunks).toBytes = .ok bs ↔
      ∃ rest, s.toBytes = .ok rest ∧ chunks.flatMap (·.2) ++ rest = bs := by
  simp only [toBytes_eq_ok_iff, prepend, List.flatMap_append]
  constructor
  · rintro ⟨hf, rfl⟩
    exact ⟨_, ⟨hf, rfl⟩, rfl⟩
  · rintro ⟨_, ⟨hf, rfl⟩, rfl⟩
    exact ⟨hf, rfl⟩

theorem toBytes_map_eq_ok_iff {f : ν → ν'} {g : ε → ε'} {s : Script ν ε} {bs : Bytes} :
    (s.map f g).toBytes = .ok bs ↔ s.toBytes = .ok bs := by
  simp only [toBytes_eq_ok_iff, map, Option.map_eq_none_iff, List.flatMap_map]

/-- The bytes of a script that is put behind pieces as a part of another one. -/
theorem toBytes_prepend_map (chunks : List (ν' × Bytes)) (f : ν → ν') (g : ε → ε')
    (s : Script ν ε) :
    ((s.map f g).prepend chunks).toBytes =
      (s.toBytes.mapError g).map (chunks.flatMap (·.2) ++ ·) := by
  obtain ⟨pieces, failure⟩ := s
  cases failure with
  | none =>
      show Except.ok _ = Except.ok _
      rw [prepend, map, List.flatMap_append, List.flatMap_map]
  | some e => rfl

end Firmware.Script

namespace Firmware

variable {ν ν' ε ε' α : Type}

/-! ## Stores that run full -/

namespace Tally

variable {t t₁ t₂ : Tally} {a b : Bytes}

/-- What a tally comes to when it is offered bytes: the store keeps those for which there is room. -/
structure Takes (t : Tally) (offered : Bytes) (t' : Tally) : Prop where
  stored : t'.sink.stored = t.sink.stored ++ offered.take t.sink.room
  room : t'.sink.room = t.sink.room - offered.length
  count : t'.count = t.count + (offered.take t.sink.room).length

theorem Takes.nil (t : Tally) : t.Takes [] t where
  stored := by rw [List.take_nil, List.append_nil]
  room := rfl
  count := by rw [List.take_nil, List.length_nil, Nat.add_zero]

theorem Takes.append (h₁ : t.Takes a t₁) (h₂ : t₁.Takes b t₂) : t.Takes (a ++ b) t₂ where
  stored := by rw [h₂.stored, h₁.stored, h₁.room, List.take_append, List.append_assoc]
  room := by rw [h₂.room, h₁.room, List.length_append, Nat.sub_sub]
  count := by
    rw [h₂.count, h₁.count, h₁.room, List.take_append, List.length_append, Nat.add_assoc]

/-- Behind bytes that did not fit, no others are stored. -/
theorem Takes.append_of_lt (h : t.Takes a t₁) (hfull : t.sink.room < a.length) (b : Bytes) :
    t.Takes (a ++ b) t₁ := by
  have htake : (a ++ b).take t.sink.room = a.take t.sink.room :=
    List.take_append_of_le_length (Nat.le_of_lt hfull)
  refine ⟨?_, ?_, ?_⟩
  · rw [htake, h.stored]
  · rw [h.room, List.length_append]
    omega
  · rw [htake, h.count]

theorem takes_writeAll (t : Tally) (data : Bytes) : t.Takes data (t.writeAll data).1 where
  stored := by
    show (data.take t.sink.room :: t.sink.pieces).reverse.flatten = _
    rw [List.reverse_cons, List.flatten_concat]
    rfl
  room := by
    show t.sink.room - (data.take t.sink.room).length = _
    rw [List.length_take]
    omega
  count := rfl

theorem writeAll_snd (t : Tally) (data : Bytes) :
    (t.writeAll data).2 = decide (data.length ≤ t.sink.room) := by
  show ((data.take t.sink.room).length == data.length) = _
  rw [List.length_take, Bool.eq_iff_iff, beq_iff_eq, decide_eq_true_eq]
  omega

end Tally

/-! ## Which piece did not fit -/

/-- The name of the piece that the byte at a place belongs to. -/
def pieceAt : List (ν × Bytes) → Nat → Option ν
  | [], _ => none
  | (name, data) :: rest, n => if n < data.length then some name else pieceAt rest (n - data.length)

theorem pieceAt_eq_none_iff {chunks : List (ν × Bytes)} {n : Nat} :
    pieceAt chunks n = none ↔ (chunks.flatMap (·.2)).length ≤ n := by
  induction chunks generalizing n with
  | nil => exact iff_of_true rfl (Nat.zero_le n)
  | cons chunk chunks ih =>
      obtain ⟨name, data⟩ := chunk
      rw [pieceAt, List.flatMap_cons, List.length_append]
      dsimp only
      split
      · rename_i hlt
        refine iff_of_false (Option.some_ne_none name) ?_
        omega
      · rename_i hge
        rw [ih]
        omega

theorem pieceAt_append (chunks rest : List (ν × Bytes)) (n : Nat) :
    pieceAt (chunks ++ rest) n =
      if n < (chunks.flatMap (·.2)).length then pieceAt chunks n
      else pieceAt rest (n - (chunks.flatMap (·.2)).length) := by
  induction chunks generalizing n with
  | nil => rfl
  | cons chunk chunks ih =>
      obtain ⟨name, data⟩ := chunk
      rw [List.cons_append, pieceAt, pieceAt, ih, List.flatMap_cons, List.length_append,
        Nat.sub_sub]
      grind

theorem mem_of_pieceAt {chunks : List (ν × Bytes)} {n : Nat} {name : ν}
    (h : pieceAt chunks n = some name) : name ∈ chunks.map (·.1) := by
  induction chunks generalizing n with
  | nil => cases h
  | cons chunk chunks ih =>
      obtain ⟨name', data⟩ := chunk
      rw [pieceAt] at h
      split at h
      · obtain rfl := Option.some.inj h
        exact List.mem_cons_self
      · exact List.mem_cons_of_mem _ (ih h)

/-- A piece has the name that the byte behind the room of the store belongs to. -/
theorem Tally.writeChunks_snd (t : Tally) (chunks : List (ν × Bytes)) :
    (t.writeChunks chunks).2 = pieceAt chunks t.sink.room := by
  induction chunks generalizing t with
  | nil => rfl
  | cons chunk chunks ih =>
      obtain ⟨name, data⟩ := chunk
      have htakes := t.takes_writeAll data
      have hfits := t.writeAll_snd data
      rw [Tally.writeChunks, pieceAt]
      rcases hwrite : t.writeAll data with ⟨t₁, fits⟩
      rw [hwrite] at htakes hfits
      cases fits with
      | true =>
          rw [if_neg (Nat.not_lt.mpr (of_decide_eq_true hfits.symm)), ← htakes.room]
          exact ih t₁
      | false => rw [if_pos (Nat.lt_of_not_le (of_decide_eq_false hfits.symm))]

/-- However bytes are divided into pieces, the store keeps those for which there is room. -/
theorem Tally.takes_writeChunks (t : Tally) (chunks : List (ν × Bytes)) :
    t.Takes (chunks.flatMap (·.2)) (t.writeChunks chunks).1 := by
  induction chunks generalizing t with
  | nil => exact .nil t
  | cons chunk chunks ih =>
      obtain ⟨name, data⟩ := chunk
      have htakes := t.takes_writeAll data
      have hfits := t.writeAll_snd data
      rw [Tally.writeChunks, List.flatMap_cons]
      rcases hwrite : t.writeAll data with ⟨t₁, fits⟩
      rw [hwrite] at htakes hfits
      cases fits with
      | true => exact htakes.append (ih t₁)
      | false =>
          have hfull := Nat.lt_of_not_le (of_decide_eq_false hfits.symm)
          exact htakes.append_of_lt hfull _

/-! ## Runs on an empty store -/

/-- A run of a writer on an empty store with room for `n` bytes.  The writer means to write the given
bytes and to end with a result of its own.  The store has the first `n` of them, their number is the
count, and if they are not all, then the run ends with an error for a store that is full instead. -/
structure Cuts (n : Nat) (bytes : Bytes) (own : Except ε α) (IsFull : ε → Prop)
    (run : Tally × Except ε α) : Prop where
  stored : run.1.sink.stored = bytes.take n
  count : run.1.count = run.1.sink.stored.length
  fits : bytes.length ≤ n → run.2 = own
  full : n < bytes.length → ∃ e, run.2 = .error e ∧ IsFull e

/-- A run with nothing to write always comes to its own result. -/
theorem Cuts.of_nil {n : Nat} {own : Except ε α} {IsFull IsFull' : ε → Prop}
    {run : Tally × Except ε α} (h : Cuts n [] own IsFull run) : Cuts n [] own IsFull' run :=
  { h with full := fun hlt => absurd hlt (Nat.not_lt_zero n) }

/-- A result made of the one of the run changes nothing else. -/
theorem Cuts.map {β : Type} {n : Nat} {bytes : Bytes} {own : Except ε α} {IsFull : ε → Prop}
    {run : Tally × Except ε α} (h : Cuts n bytes own IsFull run) (f : α → β) :
    Cuts n bytes (own.map f) IsFull (run.1, run.2.map f) where
  stored := h.stored
  count := h.count
  fits hle := congrArg (Except.map f) (h.fits hle)
  full hlt := by
    obtain ⟨e, he, hfull⟩ := h.full hlt
    exact ⟨e, congrArg (Except.map f) he, hfull⟩

namespace Script

variable {s : Script ν ε} {full : ν → ε} {n : Nat}

/-- An error that names the piece to which the byte at place `n` belongs. -/
def IsFull (s : Script ν ε) (full : ν → ε) (n : Nat) (e : ε) : Prop :=
  ∃ name, pieceAt s.chunks n = some name ∧ e = full name

theorem writeTo_eq (s : Script ν ε) (full : ν → ε) (t : Tally) :
    s.writeTo full t =
      ((t.writeChunks s.chunks).1,
        match pieceAt s.chunks t.sink.room, s.failure with
        | some name, _ => .error (full name)
        | none, some e => .error e
        | none, none => .ok ()) := by
  rw [writeTo, ← t.writeChunks_snd]
  rcases t.writeChunks s.chunks with ⟨t', name?⟩
  cases name? with
  | some name => rfl
  | none =>
      cases s.failure with
      | none => rfl
      | some e => rfl

theorem cuts_writeTo (s : Script ν ε) (full : ν → ε) (n : Nat) :
    Cuts n (s.chunks.flatMap (·.2)) (s.failure.elim (.ok ()) .error) (s.IsFull full n)
      (s.writeTo full (.ofLimit n)) := by
  have htakes := (Tally.ofLimit n).takes_writeChunks s.chunks
  rw [writeTo_eq]
  have hstored := htakes.stored
  rw [show (Tally.ofLimit n).sink.stored = [] from rfl, List.nil_append] at hstored
  refine ⟨hstored, ?_, fun hle => ?_, fun hlt => ?_⟩
  · rw [hstored, htakes.count]
    exact Nat.zero_add _
  · have hnone : pieceAt s.chunks (Tally.ofLimit n).sink.room = none := pieceAt_eq_none_iff.mpr hle
    rw [hnone]
    cases s.failure with
    | none => rfl
    | some e => rfl
  · obtain ⟨name, hname⟩ := Option.ne_none_iff_exists'.mp
      fun hnone => Nat.not_le_of_lt hlt (pieceAt_eq_none_iff.mp hnone)
    have hroom : pieceAt s.chunks (Tally.ofLimit n).sink.room = some name := hname
    rw [hroom]
    exact ⟨full name, rfl, name, hname, rfl⟩

theorem cuts_of_toBytes {bytes : Bytes} (h : s.toBytes = .ok bytes) (full : ν → ε) (n : Nat) :
    Cuts n bytes (.ok ()) (s.IsFull full n) (s.writeTo full (.ofLimit n)) := by
  obtain ⟨hnone, rfl⟩ := toBytes_eq_ok_iff.mp h
  have hcuts := s.cuts_writeTo full n
  rwa [hnone] at hcuts

theorem cuts_of_failure {e : ε} (s : Script ν ε) (h : s.failure = some e) (full : ν → ε) (n : Nat) :
    Cuts n (s.chunks.flatMap (·.2)) (.error e) (s.IsFull full n) (s.writeTo full (.ofLimit n)) := by
  have hcuts := s.cuts_writeTo full n
  rwa [h] at hcuts

/-- A writer that fails before its first piece leaves an empty store. -/
theorem cuts_fail (e : ε) (full : ν → ε) (n : Nat) :
    Cuts n [] (.error e) (fun _ => False) ((fail e).writeTo full (.ofLimit n)) := by
  have hcuts : Cuts n [] (.error e) _ _ := (fail e).cuts_of_failure rfl full n
  exact hcuts.of_nil

end Script

end Firmware
