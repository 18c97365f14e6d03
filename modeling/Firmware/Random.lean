import Firmware.Bytes

/-!
# Random bytes

Whoever signs, wraps or generates draws bytes from a source that is given from outside.  A source
is an endless stream and a position in it; drawing moves the position, also when the computation
that draws fails afterwards.
-/

namespace Firmware

/-- An endless stream of bytes and the number of bytes drawn from it so far. -/
structure RandomSource where
  stream : Nat → UInt8
  position : Nat := 0

namespace RandomSource

/-- The source that yields the given bytes over and over. -/
def cycle (pattern : Bytes) : RandomSource :=
  let bytes := pattern.toArray
  { stream := fun i => bytes.getD (i % bytes.size) 0 }

/-- The next `n` bytes and the source behind them. -/
def draw (s : RandomSource) (n : Nat) : Bytes × RandomSource :=
  ((List.range n).map fun i => s.stream (s.position + i), { s with position := s.position + n })

end RandomSource

/-- A computation that may draw random bytes and may fail. -/
abbrev Random (ε α : Type) := ExceptT ε (StateM RandomSource) α

namespace Random

def draw {ε : Type} (n : Nat) : Random ε Bytes := fun s =>
  let (bytes, s) := s.draw n
  (.ok bytes, s)

/-- A computation that draws nothing. -/
def lift {ε α : Type} (r : Except ε α) : Random ε α := fun s => (r, s)

/-- The computation with its error put into another one. -/
def mapError {ε ε' α : Type} (f : ε → ε') (r : Random ε α) : Random ε' α := fun s =>
  let (a, s) := r s
  (a.mapError f, s)

/-- The result of a computation, without the source that is left. -/
def eval {ε α : Type} (r : Random ε α) (s : RandomSource) : Except ε α := (r s).1

end Random

end Firmware
