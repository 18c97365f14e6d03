import Firmware.Bytes

/-!
# Checked accesses

The formats are read by taking lists apart.  A program that keeps a whole buffer and positions in it
does the same with other means, and with means that can go wrong: an index must be below the length,
the ends of a range must be in order and within the buffer, what is copied must have the size of the
place that it is copied to, and a difference of unsigned numbers must not be negative.

The operations here make each of these demands a check.  A computation that breaks one ends in a
`Fault`, which nothing recovers from; an error of its own, such as one about a malformed file, is a
result like any other (`Run`).
-/

namespace Firmware.Checked

/-- A demand of an access that was not met. -/
inductive Fault where
  | index (i length : Nat)
  | range (start stop length : Nat)
  | split (place length : Nat)
  | copy (target source : Nat)
  | underflow (a b : Nat)
deriving DecidableEq

/-- A computation with checked accesses that may fail. -/
abbrev Run (ε α : Type) := ExceptT ε (Except Fault) α

section Accesses

variable {α : Type}

/-- The element at a position. -/
def index (xs : List α) (i : Nat) : Except Fault α :=
  match xs[i]? with
  | some x => .ok x
  | none => .error (.index i xs.length)

/-- The elements at positions `start` up to `stop`. -/
def range (xs : List α) (start stop : Nat) : Except Fault (List α) :=
  if start ≤ stop ∧ stop ≤ xs.length then .ok ((xs.drop start).take (stop - start))
  else .error (.range start stop xs.length)

def rangeFrom (xs : List α) (start : Nat) : Except Fault (List α) := range xs start xs.length

def rangeTo (xs : List α) (stop : Nat) : Except Fault (List α) := range xs 0 stop

/-- The elements before a position and those behind it. -/
def splitAt (xs : List α) (place : Nat) : Except Fault (List α × List α) :=
  if place ≤ xs.length then .ok (xs.take place, xs.drop place)
  else .error (.split place xs.length)

/-- The list with the element at a position changed. -/
def modifyAt (xs : List α) (i : Nat) (f : α → Except Fault α) : Except Fault (List α) := do
  let x ← index xs i
  return xs.set i (← f x)

/-- What is in the place of some bytes after others have been copied there. -/
def copy (target source : Bytes) : Except Fault Bytes :=
  if target.length = source.length then .ok source
  else .error (.copy target.length source.length)

/-- The buffer after bytes have been copied to positions `start` up to `stop`. -/
def copyTo (bs : Bytes) (start stop : Nat) (source : Bytes) : Except Fault Bytes := do
  let target ← range bs start stop
  return bs.take start ++ (← copy target source) ++ bs.drop stop

/-- The difference of unsigned numbers. -/
def sub (a b : Nat) : Except Fault Nat := if b ≤ a then .ok (a - b) else .error (.underflow a b)

end Accesses

/-- An access on the way to a result. -/
def access {ε α : Type} (x : Except Fault α) : Run ε α := ExceptT.lift x

/-- A result that was come to without an access. -/
def ofResult {ε α : Type} (r : Except ε α) : Run ε α := ExceptT.mk (.ok r)

/-! ## Tagged values -/

/-- A kind of tagged values: how the header in front of the data is read, and what is reported if
it or the data is cut off. -/
structure ValueKind (α ε : Type) where
  headerSize : Nat
  headerSize_pos : 0 < headerSize
  /-- The length of the data, the value that the data will make, and what follows the header. -/
  header? : Bytes → Option (Nat × (Bytes → α) × Bytes)
  headerTruncated (index offset : Nat) : ε
  dataTruncated (index len available : Nat) : ε

/-- Reads values from an offset on until the buffer ends, behind those that have been read. -/
def readValues {α ε : Type} (kind : ValueKind α ε) (data : Bytes) (values : List α)
    (offset : Nat) : Run ε (List α) :=
  if offset < data.length then do
    match kind.header? (← access (rangeFrom data offset)) with
    | none => throw (kind.headerTruncated values.length offset)
    | some (len, value, behind) =>
      if behind.length < len then
        throw (kind.dataTruncated values.length len behind.length)
      else
        let content ← access (rangeTo behind len)
        readValues kind data (values ++ [value content]) (offset + (kind.headerSize + len))
  else return values
termination_by data.length - offset
decreasing_by
  have := kind.headerSize_pos
  omega

end Firmware.Checked
