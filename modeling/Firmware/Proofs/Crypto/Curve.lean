import Firmware.Crypto.Curve
import Firmware.Proofs.Bytes
import Firmware.Proofs.Crypto.Modular

/-!
# Points are read back

`decode?_encode` : a point of the curve is read back from its uncompressed form.

`onCurve_of_decode?` : whatever is read, from either form, is a point of the curve with reduced
coordinates.  For the compressed form the second coordinate is computed, and a root is reduced since
every step of its computation reduces.
-/

namespace Firmware.Crypto

/-! ## Square roots -/

namespace Modular

theorem pow_lt {m : Nat} (hm : 0 < m) (base e : Nat) : pow base e m < m := by
  rw [pow_eq]
  exact Nat.mod_lt _ hm

theorem lt_of_sqrtFrom {p fuel k c t x y : Nat} (hp : 0 < p) (hx : x < p)
    (h : sqrtFrom p fuel k c t x = some y) : y < p := by
  induction fuel generalizing k c t x with
  | zero => cases h
  | succ fuel ih =>
      rw [sqrtFrom] at h
      split at h
      · cases h
      · obtain rfl := Option.some.inj h
        exact hx
      · exact ih (Nat.mod_lt _ hp) h

theorem lt_of_sqrt? {a p z y : Nat} (hp : 0 < p) (h : sqrt? a p z = some y) : y < p := by
  unfold sqrt? at h
  dsimp only at h
  split at h
  · obtain rfl := Option.some.inj h
    exact hp
  · exact lt_of_sqrtFrom hp (pow_lt hp _ _) h

end Modular

/-! ## Points -/

namespace Curve

variable {c : Curve} {q : Point}

/-- The equation holds, and the coordinates are reduced. -/
structure OnCurve (c : Curve) (q : Point) : Prop where
  x : q.x < c.p
  y : q.y < c.p
  equation : c.contains q.x q.y = true

theorem length_encode (c : Curve) (q : Point) : (c.encode q).length = 2 * c.fieldSize + 1 := by
  rw [encode, List.cons_append, List.length_cons, List.length_append, Bytes.length_ofNatBE,
    Bytes.length_ofNatBE, Nat.two_mul]

theorem decode?_encode (hp : c.p ≤ 256 ^ c.fieldSize) (h : c.OnCurve q) :
    c.decode? (c.encode q) = some q := by
  have hx := Bytes.toNatBE_ofNatBE_of_lt (Nat.lt_of_lt_of_le h.x hp)
  have hy := Bytes.toNatBE_ofNatBE_of_lt (Nat.lt_of_lt_of_le h.y hp)
  have hlength : (Bytes.ofNatBE c.fieldSize q.x ++ Bytes.ofNatBE c.fieldSize q.y).length =
      2 * c.fieldSize := by
    rw [List.length_append, Bytes.length_ofNatBE, Bytes.length_ofNatBE, Nat.two_mul]
  have htake : (Bytes.ofNatBE c.fieldSize q.x ++ Bytes.ofNatBE c.fieldSize q.y).take c.fieldSize =
      Bytes.ofNatBE c.fieldSize q.x := List.take_left' (Bytes.length_ofNatBE _ _)
  have hdrop : (Bytes.ofNatBE c.fieldSize q.x ++ Bytes.ofNatBE c.fieldSize q.y).drop c.fieldSize =
      Bytes.ofNatBE c.fieldSize q.y := List.drop_left' (Bytes.length_ofNatBE _ _)
  rw [encode, List.cons_append, decode?, if_pos ⟨rfl, hlength⟩, htake, hdrop, hx, hy]
  exact if_pos ⟨h.x, h.y, h.equation⟩

theorem onCurve_of_decompress? {x parity : Nat} (h : c.decompress? x parity = some q) :
    c.OnCurve q := by
  unfold decompress? at h
  split at h
  · rename_i hx
    have hp : 0 < c.p := Nat.zero_lt_of_lt hx
    obtain ⟨root, hroot, h⟩ := Option.bind_eq_some_iff.mp h
    have hy : (if root % 2 = parity then root else (c.p - root) % c.p) < c.p := by
      split
      · exact Modular.lt_of_sqrt? hp hroot
      · exact Nat.mod_lt _ hp
    dsimp only at h
    generalize (if root % 2 = parity then root else (c.p - root) % c.p) = y at h hy
    split at h
    · rename_i hcontains
      obtain rfl := Option.some.inj h
      exact ⟨hx, hy, hcontains.1⟩
    · cases h
  · cases h

theorem onCurve_of_decode? {bs : Bytes} (h : c.decode? bs = some q) : c.OnCurve q := by
  unfold decode? at h
  split at h
  · cases h
  · split at h
    · dsimp only at h
      split at h
      · rename_i hcontains
        obtain rfl := Option.some.inj h
        exact ⟨hcontains.1, hcontains.2.1, hcontains.2.2⟩
      · cases h
    · split at h
      · exact onCurve_of_decompress? h
      · cases h

end Curve

end Firmware.Crypto
