import Firmware.Crypto.Hash

/-!
# SHA-256 on numbers

`sha256_eq_digest` : the digest comes out the same when the words are natural numbers, reduced where
words would wrap around, and when the window of message words moves on instead of going round.

Statements about fixed keys and messages are settled by evaluation, and there the bits of a word are
what costs most.  Natural numbers are evaluated as a whole, so such statements are put into this form
first.
-/

namespace Firmware.Crypto

/-! ## Places in the window -/

namespace Place

theorem ahead_zero (i : Place) : i.ahead 0 = i := Fin.ext (Nat.mod_eq_of_lt i.isLt)

theorem ahead_ahead (i : Place) (j k : Nat) : (i.ahead j).ahead k = i.ahead (j + k) := by
  apply Fin.ext
  show ((i.val + j) % 16 + k) % 16 = (i.val + (j + k)) % 16
  rw [Nat.mod_add_mod, Nat.add_assoc]

theorem ahead_ne {i : Place} {k : Nat} (hpos : 0 < k) (hlt : k < 16) : i.ahead k ≠ i := by
  intro h
  have hval : (i.val + k) % 16 = i.val := congrArg Fin.val h
  omega

end Place

namespace Sha256

/-! ## The function on numbers -/

namespace Numeric

/-- The eight working words as numbers. -/
structure State where
  a : Nat
  b : Nat
  c : Nat
  d : Nat
  e : Nat
  f : Nat
  g : Nat
  h : Nat

/-- The message words of a round and of the 15 that follow. -/
structure Window where
  (w0 w1 w2 w3 w4 w5 w6 w7 w8 w9 w10 w11 w12 w13 w14 w15 : Nat)

/-- Rotation of a word to the right by `n` bits, `0 < n < 32`. -/
def rotr (x n : Nat) : Nat := x >>> n ||| (x <<< (32 - n)) % UInt32.size

/-- The word that the schedule yields behind a window. -/
def Window.next (w : Window) : Nat :=
  (w.w0 + (rotr w.w1 7 ^^^ rotr w.w1 18 ^^^ (w.w1 >>> 3)) + w.w9 +
    (rotr w.w14 17 ^^^ rotr w.w14 19 ^^^ (w.w14 >>> 10))) % UInt32.size

def Window.shift (w : Window) : Window :=
  ⟨w.w1, w.w2, w.w3, w.w4, w.w5, w.w6, w.w7, w.w8, w.w9, w.w10, w.w11, w.w12, w.w13, w.w14, w.w15,
    w.next⟩

/-- One round with the sum of its constant and its message word. -/
def round (s : State) (kw : Nat) : State :=
  let t1 := s.h + (rotr s.e 6 ^^^ rotr s.e 11 ^^^ rotr s.e 25) +
    ((s.e &&& s.f) ^^^ ((UInt32.size - 1 - s.e) &&& s.g)) + kw
  let t2 := (rotr s.a 2 ^^^ rotr s.a 13 ^^^ rotr s.a 22) +
    ((s.a &&& s.b) ^^^ (s.a &&& s.c) ^^^ (s.b &&& s.c))
  ⟨(t1 + t2) % UInt32.size, s.a, s.b, s.c, (s.d + t1) % UInt32.size, s.e, s.f, s.g⟩

def rounds : List UInt32 → Window → State → State
  | [], _, s => s
  | k :: ks, w, s => rounds ks w.shift (round s (k.toNat + w.w0))

end Numeric

/-- The words of a state as numbers. -/
def State.numbers (s : State) : Numeric.State :=
  ⟨s.a.toNat, s.b.toNat, s.c.toNat, s.d.toNat, s.e.toNat, s.f.toNat, s.g.toNat, s.h.toNat⟩

/-- The words of a window as numbers, from a place onwards. -/
def numbersFrom (w : Vector UInt32 16) (i : Place) : Numeric.Window :=
  let word (k : Nat) : Nat := (w.get (i.ahead k)).toNat
  ⟨word 0, word 1, word 2, word 3, word 4, word 5, word 6, word 7, word 8, word 9, word 10, word 11,
    word 12, word 13, word 14, word 15⟩

namespace Numeric

def compress (s : State) (block : Bytes) : State :=
  let t := rounds roundConstants (numbersFrom (window block) Place.first) s
  ⟨(s.a + t.a) % UInt32.size, (s.b + t.b) % UInt32.size, (s.c + t.c) % UInt32.size,
    (s.d + t.d) % UInt32.size, (s.e + t.e) % UInt32.size, (s.f + t.f) % UInt32.size,
    (s.g + t.g) % UInt32.size, (s.h + t.h) % UInt32.size⟩

def absorb : Nat → State → Bytes → State
  | 0, s, _ => s
  | n + 1, s, data => absorb n (compress s (data.take 64)) (data.drop 64)

def State.toBytes (s : State) : Bytes :=
  [s.a, s.b, s.c, s.d, s.e, s.f, s.g, s.h].flatMap fun w => Bytes.ofNatBE 4 w

/-- The SHA-256 digest. -/
def digest (message : Bytes) : Bytes :=
  let n := message.length
  (absorb (n / 64 + if n % 64 < 56 then 1 else 2) initial256.numbers
    (message ++ padding n)).toBytes

end Numeric

/-! ## Windows -/

/-- A word that is replaced comes back behind the others. -/
theorem numbersFrom_set (w : Vector UInt32 16) (i : Place) (x : UInt32)
    (hx : x.toNat = (numbersFrom w i).next) :
    numbersFrom (w.set i x) (i.ahead 1) = (numbersFrom w i).shift := by
  have hkept : ∀ k, 0 < k → k < 16 → (w.set i x).get (i.ahead k) = w.get (i.ahead k) := by
    intro k hpos hlt
    exact Vector.getElem_set_ne _ _ fun h => Place.ahead_ne hpos hlt (Fin.ext h.symm)
  have hlast : (w.set i x).get (i.ahead 16) = x := by
    have hround : i.ahead 16 = i := Fin.ext (by show (i.val + 16) % 16 = i.val; omega)
    rw [hround]
    exact Vector.getElem_set_self _
  unfold Numeric.Window.shift
  rw [← hx]
  unfold numbersFrom
  simp [Place.ahead_ahead, hkept, hlast]

/-! ## The words -/

theorem toNat_rotr (x : UInt32) {n : UInt32} (hpos : 0 < n.toNat) (hlt : n.toNat < 32) :
    (rotr x n).toNat = Numeric.rotr x.toNat n.toNat := by
  have hback : (32 - n).toNat = 32 - n.toNat :=
    UInt32.toNat_sub_of_le _ _ (UInt32.le_iff_toNat_le.mpr (Nat.le_of_lt hlt))
  have hshift : 32 - n.toNat < 32 := Nat.sub_lt (by decide) hpos
  unfold rotr Numeric.rotr
  rw [UInt32.toNat_or, UInt32.toNat_shiftRight, UInt32.toNat_shiftLeft, hback,
    Nat.mod_eq_of_lt hlt, Nat.mod_eq_of_lt hshift]

theorem numbers_round (s : State) (k w : UInt32) :
    (round s (k + w)).numbers = Numeric.round s.numbers (k.toNat + w.toNat) := by
  unfold round Numeric.round State.numbers
  simp [toNat_rotr, UInt32.size]

theorem toNat_nextWord (w : Vector UInt32 16) (i : Place) :
    (nextWord w i).toNat = (numbersFrom w i).next := by
  unfold nextWord Numeric.Window.next numbersFrom
  simp [toNat_rotr, Place.ahead_zero, UInt32.size]

theorem numbers_rounds (ks : List UInt32) (w : Vector UInt32 16) (i : Place) (s : State) :
    (rounds ks w i s).numbers = Numeric.rounds ks (numbersFrom w i) s.numbers := by
  induction ks generalizing w i s with
  | nil => rfl
  | cons k ks ih =>
      have hword : (w.get i).toNat = (numbersFrom w i).w0 := by
        show _ = (w.get (i.ahead 0)).toNat
        rw [Place.ahead_zero]
      rw [rounds, Numeric.rounds, ih, numbersFrom_set w i _ (toNat_nextWord w i), numbers_round,
        hword]

theorem numbers_compress (s : State) (block : Bytes) :
    (compress s block).numbers = Numeric.compress s.numbers block := by
  unfold compress Numeric.compress
  rw [← numbers_rounds]
  simp [State.numbers, UInt32.size]

theorem numbers_absorb (n : Nat) (s : State) (data : Bytes) :
    (absorb n s data).numbers = Numeric.absorb n s.numbers data := by
  induction n generalizing s data with
  | zero => rfl
  | succ n ih => rw [absorb, Numeric.absorb, ih, numbers_compress]

theorem sha256_eq_digest (message : Bytes) : sha256 message = Numeric.digest message := by
  unfold Numeric.digest
  dsimp only
  rw [← numbers_absorb]
  rfl

end Sha256

theorem HashFunction.sha256_eq : HashFunction.sha256 = ⟨64, 32, Sha256.Numeric.digest⟩ :=
  congrArg (HashFunction.mk 64 32) (funext Sha256.sha256_eq_digest)

end Firmware.Crypto
