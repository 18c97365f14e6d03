/-!
# Message schedules

The functions of the SHA-2 family keep sixteen message words at a time, in a window that goes round:
the word of a round is replaced by the one that is needed sixteen rounds later.
-/

namespace Firmware.Crypto

/-- A place in the window of message words. -/
abbrev Place := Fin 16

def Place.first : Place := ⟨0, by decide⟩

/-- The place `k` steps ahead, which goes round. -/
@[inline] def Place.ahead (i : Place) (k : Nat) : Place :=
  ⟨(i.val + k) % 16, Nat.mod_lt _ (by decide)⟩

end Firmware.Crypto
