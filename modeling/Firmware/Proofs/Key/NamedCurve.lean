import Firmware.Proofs.Except
import Firmware.Proofs.Key.Structure

/-!
# The curve of a key that stands on its own

A private key for an elliptic curve may name its curve and may come with its public key.
`ecPrivateOf_eq_ok_iff_loadsOn` says on which curve it is loaded: on one that it fits, and on the
one that the size of its scalar suggests if it may fit both.  The name has no part in it.

A public key leaves no choice, since it has another size on each curve (`EcCurve.eq_of_pointSize`).
So a key with a public key on the curve that it names is loaded on this curve or not at all.
Without one, a key may end up on a curve that it does not name (`ecPrivateOf_of_other_curve`).
-/

namespace Firmware.Key

open Crypto (Curve)

/-! ## The two curves -/

namespace EcCurve

/-- Whether a byte string has the size of a point of the curve, in either form. -/
def PointSize (c : EcCurve) (point : Bytes) : Prop :=
  point.length = 2 * c.params.fieldSize + 1 ∨ point.length = c.params.fieldSize + 1

instance (c : EcCurve) (point : Bytes) : Decidable (c.PointSize point) :=
  inferInstanceAs (Decidable (_ ∨ _))

theorem fieldSize_p224 : p224.params.fieldSize = 28 := rfl

theorem fieldSize_p256 : p256.params.fieldSize = 32 := rfl

/-- The curve that is not the given one. -/
def other : EcCurve → EcCurve
  | p224 => p256
  | p256 => p224

theorem ne_iff_eq_other {c c' : EcCurve} : c ≠ c' ↔ c = c'.other := by
  cases c with
  | p224 => cases c' <;> decide
  | p256 => cases c' <;> decide

/-- No two curves have points of one size. -/
theorem eq_of_pointSize {c c' : EcCurve} {point : Bytes} (h : c.PointSize point)
    (h' : c'.PointSize point) : c = c' := by
  simp only [PointSize] at h h'
  cases c with
  | p224 =>
      cases c' with
      | p224 => rfl
      | p256 =>
          rw [fieldSize_p224] at h
          rw [fieldSize_p256] at h'
          omega
  | p256 =>
      cases c' with
      | p224 =>
          rw [fieldSize_p256] at h
          rw [fieldSize_p224] at h'
          omega
      | p256 => rfl

end EcCurve

/-! ## Keys that fit a curve -/

theorem ofScalar?_eq_some_iff {c : EcCurve} {d : Nat} {k : SigningKey} :
    SigningKey.ofScalar? c d = some k ↔
      (0 < d ∧ d < c.params.n) ∧ ∃ q, c.params.mulBase d = some q ∧ .ec c d q = k := by
  unfold SigningKey.ofScalar?
  split
  · rename_i hrange
    rw [Option.map_eq_some_iff, and_iff_right hrange]
  · rename_i hrange
    exact ⟨nofun, fun h => absurd h.1 hrange⟩

namespace EcPrivate

variable {e : EcPrivate} {c : EcCurve} {k : SigningKey}

/-- A scalar of acceptable size that is positive and below the order of a curve, with its point and,
if there is a public key, in agreement with it. -/
structure FitsCurve (e : EcPrivate) (c : EcCurve) (q : Curve.Point) : Prop where
  minSize : minScalarSize ≤ e.scalar.length
  maxSize : e.scalar.length ≤ c.params.fieldSize
  positive : 0 < Bytes.toNatBE e.scalar
  belowOrder : Bytes.toNatBE e.scalar < c.params.n
  point : c.params.mulBase (Bytes.toNatBE e.scalar) = some q
  publicKey : ∀ given, e.point = some given →
    given = c.params.encode q ∨ given = c.params.encodeCompressed q

theorem toKey?_eq_some_iff :
    e.toKey? c = some k ↔ ∃ q, e.FitsCurve c q ∧ .ec c (Bytes.toNatBE e.scalar) q = k := by
  constructor
  · intro h
    unfold toKey? at h
    split at h
    · rename_i hsize
      split at h
      · rename_i c' d q hscalar
        obtain ⟨hrange, q', hq, hkey⟩ := ofScalar?_eq_some_iff.mp hscalar
        cases hkey
        split at h
        · rename_i hnone
          refine ⟨q, ⟨hsize.1, hsize.2, hrange.1, hrange.2, hq, fun given hgiven => ?_⟩,
            Option.some.inj h⟩
          rw [hnone] at hgiven
          cases hgiven
        · rename_i given hsome
          split at h
          · rename_i hmatch
            refine ⟨q, ⟨hsize.1, hsize.2, hrange.1, hrange.2, hq, fun given' hgiven => ?_⟩,
              Option.some.inj h⟩
            obtain rfl := Option.some.inj (hsome.symm.trans hgiven)
            exact hmatch
          · cases h
      · cases h
    · cases h
  · rintro ⟨q, h, rfl⟩
    have hscalar := ofScalar?_eq_some_iff.mpr ⟨⟨h.positive, h.belowOrder⟩, q, h.point, rfl⟩
    rw [toKey?, if_pos ⟨h.minSize, h.maxSize⟩, hscalar]
    dsimp only
    split
    · rfl
    · rename_i given hgiven
      exact if_pos (h.publicKey given hgiven)

/-- A key that fits no curve is loaded on none. -/
theorem toKey?_eq_none_iff : e.toKey? c = none ↔ ∀ q, ¬e.FitsCurve c q := by
  rw [Option.eq_none_iff_forall_ne_some]
  constructor
  · intro h q hq
    exact h _ (toKey?_eq_some_iff.mpr ⟨q, hq, rfl⟩)
  · intro h k hk
    obtain ⟨q, hq, -⟩ := toKey?_eq_some_iff.mp hk
    exact h q hq

/-- A public key has the size of a point of the curve that the key fits. -/
theorem FitsCurve.pointSize {q : Curve.Point} {given : Bytes} (h : e.FitsCurve c q)
    (hgiven : e.point = some given) : c.PointSize given := by
  rcases h.publicKey given hgiven with rfl | rfl
  · exact .inl (Curve.length_encode _ _)
  · refine .inr ?_
    rw [Curve.encodeCompressed, List.length_cons, Bytes.length_ofNatBE]

/-- The curve that the size of the scalar suggests. -/
def suggested (e : EcPrivate) : EcCurve :=
  if e.scalar.length = EcCurve.p224.params.fieldSize then .p224 else .p256

/-- A key is on a curve that it fits.  Without a public key it may fit both curves; then it is on
the one that the size of the scalar suggests. -/
structure LoadsOn (e : EcPrivate) (c : EcCurve) (q : Curve.Point) : Prop where
  fits : e.FitsCurve c q
  first : e.point = none → c ≠ e.suggested → ∀ q', ¬e.FitsCurve e.suggested q'

/-- A public key leaves no choice of the curve. -/
theorem FitsCurve.curve_eq {c' : EcCurve} {q q' : Curve.Point} (h : e.FitsCurve c q)
    (h' : e.FitsCurve c' q') (hpoint : e.point ≠ none) : c = c' := by
  obtain ⟨given, hgiven⟩ := Option.ne_none_iff_exists'.mp hpoint
  exact EcCurve.eq_of_pointSize (h.pointSize hgiven) (h'.pointSize hgiven)

theorem toAnyKey?_eq_some_iff :
    e.toAnyKey? = some k ↔ ∃ c q, e.LoadsOn c q ∧ .ec c (Bytes.toNatBE e.scalar) q = k := by
  have htry : e.toAnyKey? = (e.toKey? e.suggested <|> e.toKey? e.suggested.other) := by
    unfold toAnyKey? suggested
    split
    · rfl
    · rfl
  rw [htry, Option.orElse_eq_some, toKey?_eq_none_iff]
  simp only [toKey?_eq_some_iff]
  constructor
  · rintro (⟨q, hfits, hkey⟩ | ⟨hnone, q, hfits, hkey⟩)
    · exact ⟨_, q, ⟨hfits, fun _ hother => absurd rfl hother⟩, hkey⟩
    · exact ⟨_, q, ⟨hfits, fun _ _ => hnone⟩, hkey⟩
  · rintro ⟨c, q, ⟨hfits, hfirst⟩, hkey⟩
    by_cases hc : c = e.suggested
    · subst hc
      exact .inl ⟨q, hfits, hkey⟩
    · have hnone : ∀ q', ¬e.FitsCurve e.suggested q' := by
        intro q' hsuggested
        by_cases hpoint : e.point = none
        · exact hfirst hpoint hc q' hsuggested
        · exact hc (hfits.curve_eq hsuggested hpoint)
      have hother := EcCurve.ne_iff_eq_other.mp hc
      subst hother
      exact .inr ⟨hnone, q, hfits, hkey⟩

/-- The name of the curve is not looked at. -/
theorem toAnyKey?_congr {e' : EcPrivate} (hscalar : e'.scalar = e.scalar)
    (hpoint : e'.point = e.point) : e'.toAnyKey? = e.toAnyKey? := by
  obtain ⟨scalar, curve, point⟩ := e
  obtain ⟨scalar', curve', point'⟩ := e'
  subst hscalar hpoint
  rfl

/-- The public key tells the curve and, without one, so does the size of the scalar if the key fits
the curve that it suggests. -/
theorem LoadsOn.curve_eq {c' : EcCurve} {q : Curve.Point} (h : e.LoadsOn c q)
    (hother : (∃ given, e.point = some given ∧ c'.PointSize given) ∨
      (c' = e.suggested ∧ ∃ q', e.FitsCurve c' q')) : c = c' := by
  rcases hother with ⟨given, hgiven, hsize⟩ | ⟨rfl, q', hfits⟩
  · exact EcCurve.eq_of_pointSize (h.fits.pointSize hgiven) hsize
  · by_cases hpoint : e.point = none
    · by_contra hc
      exact h.first hpoint hc q' hfits
    · exact h.fits.curve_eq hfits hpoint

end EcPrivate

/-! ## Reading -/

variable {der : Bytes} {e : EcPrivate}

theorem ecPrivateOf_eq (he : EcPrivate.ofBytes? der = some e) :
    ecPrivateOf der = e.toAnyKey?.elim (.error .unsupportedEcKey) .ok := by
  rw [ecPrivateOf, he]
  rfl

/-- A key is loaded exactly if it fits a curve, whatever curve it names.  It is on the curve that it
names if it comes with a public key that has the size of a point of this curve, and also if the size
of the scalar suggests this curve and the key fits it. -/
theorem ecPrivateOf_eq_ok_iff_loadsOn (he : EcPrivate.ofBytes? der = some e) :
    (∀ k, ecPrivateOf der = .ok k ↔
      ∃ c q, e.LoadsOn c q ∧ .ec c (Bytes.toNatBE e.scalar) q = k) ∧
    (∀ der' e', EcPrivate.ofBytes? der' = some e' → e'.scalar = e.scalar → e'.point = e.point →
      ecPrivateOf der' = ecPrivateOf der) ∧
    ∀ named c d q, e.curve = some named → ecPrivateOf der = .ok (.ec c d q) →
      (∃ c', c'.oid = named ∧ ((∃ given, e.point = some given ∧ c'.PointSize given) ∨
        (c' = e.suggested ∧ ∃ q', e.FitsCurve c' q'))) → c.oid = named := by
  have hloads : ∀ k, ecPrivateOf der = .ok k ↔
      ∃ c q, e.LoadsOn c q ∧ .ec c (Bytes.toNatBE e.scalar) q = k := by
    intro k
    rw [ecPrivateOf_eq he, elim_eq_ok_iff, EcPrivate.toAnyKey?_eq_some_iff]
  refine ⟨hloads, fun der' e' he' hscalar hpoint => ?_, ?_⟩
  · rw [ecPrivateOf_eq he', ecPrivateOf_eq he, EcPrivate.toAnyKey?_congr hscalar hpoint]
  · rintro named c d q - hkey ⟨c', rfl, hcurve⟩
    obtain ⟨_, _, hloadsOn, hkey⟩ := (hloads _).mp hkey
    cases hkey
    rw [hloadsOn.curve_eq hcurve]

namespace Named

deriving instance DecidableEq for EcPrivate

/-- The scalar 1 in a given number of bytes. -/
def one (size : Nat) : Bytes := Bytes.ofNatBE size 1

/-- A file with a key that names its curve. -/
def file (e : EcPrivate) : Bytes :=
  (Der.sequence ([Der.integer 1, Der.octetString e.scalar] ++
    (e.curve.toList.map fun curve => Der.explicit 0 (Der.oid curve)) ++
    (e.point.toList.map fun point => Der.explicit 1 (Der.bitString (.ofBytes point))))).toBytes

/-- A key on P-256 with its public key.  The scalar has the size of one on P-224. -/
def short : EcPrivate :=
  ⟨one 28, some EcCurve.p256.oid, some (Curve.p256.encode Curve.p256.base)⟩

/-- The same key without its public key. -/
def bare : EcPrivate := { short with point := none }

/-- The curve secp256k1, which is not supported. -/
def secp256k1 : Oid := .ofPath [1, 3, 132, 0, 10]

def foreign : EcPrivate := ⟨one 32, some secp256k1, none⟩

set_option maxRecDepth 100000 in
theorem ofBytes?_short : EcPrivate.ofBytes? (file short) = some short := by decide +kernel

set_option maxRecDepth 100000 in
theorem ecPrivateOf_short :
    ecPrivateOf (file short) = .ok (.ec .p256 1 Curve.p256.base) := by decide +kernel

set_option maxRecDepth 100000 in
theorem ofBytes?_bare : EcPrivate.ofBytes? (file bare) = some bare := by decide +kernel

set_option maxRecDepth 100000 in
theorem ecPrivateOf_bare :
    ecPrivateOf (file bare) = .ok (.ec .p224 1 Curve.p224.base) := by decide +kernel

set_option maxRecDepth 100000 in
theorem ofBytes?_foreign : EcPrivate.ofBytes? (file foreign) = some foreign := by decide +kernel

set_option maxRecDepth 100000 in
theorem ecPrivateOf_foreign :
    ecPrivateOf (file foreign) = .ok (.ec .p256 1 Curve.p256.base) := by decide +kernel

end Named

/-- With its public key, a key is on the curve that it names also where the size of its scalar
suggests the other one. -/
theorem ecPrivateOf_eq_ok_iff_loadsOn_short :
    EcPrivate.ofBytes? (Named.file Named.short) = some Named.short ∧
      Named.short.suggested = .p224 ∧ (∃ q, Named.short.LoadsOn .p256 q) ∧
      ∀ c d q, ecPrivateOf (Named.file Named.short) = .ok (.ec c d q) →
        c.oid = EcCurve.p256.oid := by
  obtain ⟨hloads, -, hnamed⟩ := ecPrivateOf_eq_ok_iff_loadsOn Named.ofBytes?_short
  obtain ⟨_, q, hloadsOn, hkey⟩ := (hloads _).mp Named.ecPrivateOf_short
  cases hkey
  refine ⟨Named.ofBytes?_short, by decide, ⟨_, hloadsOn⟩, fun c d q hkey => ?_⟩
  exact hnamed _ c d q rfl hkey ⟨.p256, rfl, .inl ⟨_, rfl, .inl (Curve.length_encode _ _)⟩⟩

/-- Without one, it is on the curve that the size of the scalar suggests, and a key on a curve that
is not supported is on one that is. -/
theorem ecPrivateOf_of_other_curve :
    (EcPrivate.ofBytes? (Named.file Named.bare) = some Named.bare ∧
      Named.bare.curve = some EcCurve.p256.oid ∧
      ecPrivateOf (Named.file Named.bare) = .ok (.ec .p224 1 Curve.p224.base)) ∧
    (EcPrivate.ofBytes? (Named.file Named.foreign) = some Named.foreign ∧
      Named.foreign.curve = some Named.secp256k1 ∧
      ecPrivateOf (Named.file Named.foreign) = .ok (.ec .p256 1 Curve.p256.base)) ∧
    EcCurve.p224.oid ≠ EcCurve.p256.oid ∧ EcCurve.p256.oid ≠ Named.secp256k1 :=
  ⟨⟨Named.ofBytes?_bare, rfl, Named.ecPrivateOf_bare⟩,
    ⟨Named.ofBytes?_foreign, rfl, Named.ecPrivateOf_foreign⟩, by decide, by decide⟩

end Firmware.Key
