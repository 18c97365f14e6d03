import Firmware.Bytes

/-!
# Bounded writers and readers

A `Sink` stores bytes until its room is used up; a single write stores what fits and says how much
that was.  `Tally` counts what a sink accepts.  A `Script` is the common shape of every format
writer: named pieces, one write each, and the error that the writer meets after them, if any.

A `Source` is the reading side: it yields its data, and may fail once a number of bytes is read.
-/

namespace Firmware

/-! ## Writing -/

/-- A store for bytes with `room` bytes left; `pieces` holds what each write stored, the latest
first. -/
structure Sink where
  room : Nat
  pieces : List Bytes := []

/-- The stored bytes in the order in which they were written. -/
def Sink.stored (s : Sink) : Bytes := s.pieces.reverse.flatten

/-- Stores as much of the data as fits and returns the number of bytes taken. -/
def Sink.write (s : Sink) (data : Bytes) : Sink × Nat :=
  let taken := data.take s.room
  (⟨s.room - taken.length, taken :: s.pieces⟩, taken.length)

/-- A sink together with the number of bytes it has accepted. -/
structure Tally where
  sink : Sink
  count : Nat := 0

/-- A tally over an empty sink with room for `limit` bytes. -/
def Tally.ofLimit (limit : Nat) : Tally := { sink := { room := limit } }

/-- A write through the tally, which counts what the sink takes. -/
def Tally.write (t : Tally) (data : Bytes) : Tally × Nat :=
  let (sink, taken) := t.sink.write data
  (⟨sink, t.count + taken⟩, taken)

/-- Writes everything or fails; what fits is stored in either case. -/
def Tally.writeAll (t : Tally) (data : Bytes) : Tally × Bool :=
  let (t, taken) := t.write data
  (t, taken == data.length)

/-- Writes named pieces one after the other; the result names the piece that did not fit. -/
def Tally.writeChunks {ν : Type} (t : Tally) : List (ν × Bytes) → Tally × Option ν
  | [] => (t, none)
  | (name, data) :: rest =>
    match t.writeAll data with
    | (t, true) => t.writeChunks rest
    | (t, false) => (t, some name)

/-- What a writer does on a store that never runs full: pieces in order, then success or an error
of its own. -/
structure Script (ν ε : Type) where
  chunks : List (ν × Bytes)
  failure : Option ε := none

namespace Script

/-- A script that fails before its first piece. -/
def fail {ν ε : Type} (e : ε) : Script ν ε := ⟨[], some e⟩

/-- The script with pieces in front. -/
def prepend {ν ε : Type} (chunks : List (ν × Bytes)) (s : Script ν ε) : Script ν ε :=
  ⟨chunks ++ s.chunks, s.failure⟩

/-- The script with its pieces and its error renamed. -/
def map {ν ν' ε ε' : Type} (f : ν → ν') (g : ε → ε') (s : Script ν ε) : Script ν' ε' :=
  ⟨s.chunks.map fun (name, data) => (f name, data), s.failure.map g⟩

/-- All bytes of the pieces, or the error. -/
def toBytes {ν ε : Type} (s : Script ν ε) : Except ε Bytes :=
  match s.failure with
  | none => .ok (s.chunks.flatMap (·.2))
  | some e => .error e

/-- Runs the script on a store that may run full; `full` is the error for a piece that did not
fit. -/
def writeTo {ν ε : Type} (s : Script ν ε) (full : ν → ε) (t : Tally) : Tally × Except ε Unit :=
  match t.writeChunks s.chunks, s.failure with
  | (t, some name), _ => (t, .error (full name))
  | (t, none), some e => (t, .error e)
  | (t, none), none => (t, .ok ())

end Script

/-! ## Reading -/

/-- Data that is read to its end; with a limit, every read after that many bytes fails. -/
structure Source where
  data : Bytes
  limit : Option Nat := none

/-- All data up to the end of the source.  It fails when the limit is reached before the end is
seen, even if the data stops exactly there. -/
def Source.readToEnd (s : Source) : Option Bytes :=
  match s.limit with
  | none => some s.data
  | some limit => if s.data.length < limit then some s.data else none

end Firmware
