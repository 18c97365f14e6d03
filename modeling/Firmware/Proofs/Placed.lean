import Firmware.Proofs.Bytes
import Mathlib.Data.List.Forall2

/-!
# Places in a file

An offset is right if the piece that it is meant for stands there: `StandsAt`.  It says nothing about
how the offset was computed, so it is what the offsets of a format are measured by.

The offsets of a list of values are running sums of sizes.  `Consecutive` is all that is taken from
such a computation.  If the size of every value is that of its bytes, and the values are written one
after the other, then every value stands at its offset (`Consecutive.standsAt`): the induction moves
the first value to the front, whose length is the next offset.
-/

namespace Firmware

/-! ## Pieces -/

/-- A piece of a file at an offset. -/
structure StandsAt (file : Bytes) (offset : Nat) (piece : Bytes) : Prop where
  inside : offset + piece.length ≤ file.length
  slice_eq : Bytes.slice file offset (offset + piece.length) = piece

theorem standsAt_append (front piece behind : Bytes) :
    StandsAt (front ++ piece ++ behind) front.length piece where
  inside := by
    rw [List.length_append, List.length_append]
    exact Nat.le_add_right _ _
  slice_eq := Bytes.slice_append front piece behind

/-- A piece at the place behind the bytes in front of it. -/
theorem standsAt_of_eq {file front piece behind : Bytes} {offset : Nat}
    (hfile : file = front ++ piece ++ behind) (hoffset : front.length = offset) :
    StandsAt file offset piece := by
  rw [hfile, ← hoffset]
  exact standsAt_append front piece behind

/-! ## Values in a row -/

/-- The offsets of values that stand one after the other, from a start on and up to a stop. -/
inductive Consecutive {α : Type} (size : α → Nat) : Nat → List α → List Nat → Nat → Prop
  | nil (start : Nat) : Consecutive size start [] [] start
  | cons {start stop : Nat} {a : α} {as : List α} {offsets : List Nat}
      (behind : Consecutive size (start + size a) as offsets stop) :
      Consecutive size start (a :: as) (start :: offsets) stop

namespace Consecutive

variable {α : Type} {size : α → Nat} {as : List α} {offsets : List Nat} {start stop : Nat}

theorem length_eq (h : Consecutive size start as offsets stop) : offsets.length = as.length := by
  induction h with
  | nil start => rfl
  | cons behind ih => rw [List.length_cons, List.length_cons, ih]

/-- The next value starts where the one before it ends. -/
theorem next (h : Consecutive size start as offsets stop) {i : Nat} {a : α} {m n : Nat}
    (ha : as[i]? = some a) (hm : offsets[i]? = some m) (hn : offsets[i + 1]? = some n) :
    n = m + size a := by
  induction h generalizing i with
  | nil start => cases ha
  | cons behind ih =>
      cases i with
      | succ i => exact ih ha hm hn
      | zero =>
          obtain rfl := Option.some.inj ha
          obtain rfl := Option.some.inj hm
          cases behind with
          | nil => cases hn
          | cons behind => exact (Option.some.inj hn).symm

variable {toBytes : α → Bytes}

/-- All of them together end at the stop. -/
theorem stop_eq (h : Consecutive size start as offsets stop)
    (hsize : ∀ a, (toBytes a).length = size a) : stop = start + (as.flatMap toBytes).length := by
  induction h with
  | nil start => rfl
  | cons behind ih => rw [ih, List.flatMap_cons, List.length_append, hsize, Nat.add_assoc]

/-- Written one after the other, the values stand at their offsets, whatever stands around them. -/
theorem standsAt {front : Bytes} (h : Consecutive size front.length as offsets stop)
    (hsize : ∀ a, (toBytes a).length = size a) (behind : Bytes) :
    List.Forall₂ (fun a offset => StandsAt (front ++ as.flatMap toBytes ++ behind) offset (toBytes a))
      as offsets := by
  induction as generalizing front offsets with
  | nil =>
      cases h with
      | nil => exact .nil
  | cons a as ih =>
      cases h with
      | cons hrest =>
          have hfront : (front ++ toBytes a).length = front.length + size a := by
            rw [List.length_append, hsize]
          have hfile : front ++ (a :: as).flatMap toBytes ++ behind =
              front ++ toBytes a ++ as.flatMap toBytes ++ behind := by
            rw [List.flatMap_cons, ← List.append_assoc]
          have hfirst := standsAt_append front (toBytes a) (as.flatMap toBytes ++ behind)
          rw [← List.append_assoc] at hfirst
          rw [← hfront] at hrest
          rw [hfile]
          exact .cons hfirst (ih hrest)

end Consecutive

end Firmware
