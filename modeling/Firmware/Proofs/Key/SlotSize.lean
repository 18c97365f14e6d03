import Firmware.Proofs.Encoding.Minimal
import Firmware.Proofs.Key.Signature

/-!
# Every ECDSA signature fits its slot

The slots of ECDSA signatures are of a fixed size, and the encodings in them are not: a number takes
as many bytes as its value needs, and one more if its top bit is set.  `slot_of_isSignature` : for
every pair of numbers in the range of a curve, what the standard allows as the encoding of the pair
fits the slot, has its length in one byte, and is what a reader finds in the filled slot.

`IsSignature` is the standard's demand on the encoding.  It is met by one string only, the one that
is written here (`isSignature_iff`), so the length is known exactly: `length_encodeEcdsa`.  The slot
of P-256 is as small as it can be, `fills_p256_iff`; the one of P-224 is larger than it has to be,
`length_encodeEcdsa_p224`.  Signing therefore never fails for want of room
(`not_fails_signatureTooLong`).
-/

namespace Firmware.Key

open Crypto.Ecdsa (Signature)

/-- The distinguished encoding of a pair of numbers (X.690): both as numbers in their shortest form,
in a sequence. -/
inductive IsSignature (sig : Signature) : Bytes → Prop
  | mk {r s rElement sElement der : Bytes}
      (hr : Der.IsInteger sig.r r) (hs : Der.IsInteger sig.s s)
      (hrElement : Der.IsElement Der.integerTag r rElement)
      (hsElement : Der.IsElement Der.integerTag s sElement)
      (hder : Der.IsElement Der.sequenceTag (rElement ++ sElement) der) : IsSignature sig der

/-- A pair of numbers between one and the order of a curve. -/
structure InRange (curve : EcCurve) (sig : Signature) : Prop where
  r : 1 ≤ sig.r ∧ sig.r < curve.params.n
  s : 1 ≤ sig.s ∧ sig.s < curve.params.n

variable {curve : EcCurve} {sig : Signature}

theorem InRange.bounded (h : InRange curve sig) : Bounded curve sig :=
  ⟨Nat.lt_trans h.r.2 (order_lt curve), Nat.lt_trans h.s.2 (order_lt curve)⟩

/-! ## The encoding of a pair -/

theorem isElement_integer_iff {n k : Nat} {content bytes : Bytes} (hn : n < 256 ^ k) (hk : k < 126)
    (hcontent : Der.IsInteger n content) :
    Der.IsElement Der.integerTag content bytes ↔ (Der.integer n).toBytes = bytes := by
  have hlength := Der.length_toBytes_integer_le hn (Nat.lt_trans (Nat.succ_lt_succ hk) (by decide))
  have hshort := Nat.lt_of_lt_of_le (Der.length_content_lt (Der.integer n)) hlength
  obtain rfl := Der.isInteger_iff.mp hcontent
  exact Der.isElement_iff (k := 1) (by decide) (by omega)

theorem content_pair (r s : Nat) :
    (Der.sequence [Der.integer r, Der.integer s]).content =
      (Der.integer r).toBytes ++ (Der.integer s).toBytes := by
  show [Der.integer r, Der.integer s].flatMap Der.Element.toBytes = _
  rw [List.flatMap_cons, List.flatMap_cons, List.flatMap_nil, List.append_nil]

/-- There is one encoding of a pair, and it is the one that is written. -/
theorem isSignature_iff (h : Bounded curve sig) {der : Bytes} :
    IsSignature sig der ↔ encodeEcdsa sig = der := by
  have hslot := slot_bound curve
  have hsize : curve.params.fieldSize < 126 := by omega
  have hcontent := length_content_sequence h
  have helement : Der.IsElement Der.sequenceTag
      (Der.sequence [Der.integer sig.r, Der.integer sig.s]).content der ↔ encodeEcdsa sig = der :=
    Der.isElement_iff (k := 1) (by decide) (show _ < 256 by omega)
  rw [content_pair] at helement
  constructor
  · rintro ⟨hr, hs, hrElement, hsElement, hder⟩
    obtain rfl := (isElement_integer_iff h.r hsize hr).mp hrElement
    obtain rfl := (isElement_integer_iff h.s hsize hs).mp hsElement
    exact helement.mp hder
  · intro hencode
    have hr := Der.isInteger_iff.mpr (Eq.refl (Der.integer sig.r).content)
    have hs := Der.isInteger_iff.mpr (Eq.refl (Der.integer sig.s).content)
    exact .mk hr hs ((isElement_integer_iff h.r hsize hr).mpr rfl)
      ((isElement_integer_iff h.s hsize hs).mpr rfl) (helement.mpr hencode)

/-! ## Its length -/

theorem length_integer {n k : Nat} (hn : n < 256 ^ k) (hk : k < 126) :
    (Der.integer n).toBytes.length = Der.furtherBytes n + 3 := by
  have hfurther := Der.furtherBytes_le hn
  have hcontent : (Der.integer n).content.length = Der.furtherBytes n + 1 := by
    rw [Der.content_integer, Bytes.length_ofNatBE]
  rw [Der.toBytes_of_short (by omega), List.length_cons, List.length_cons, hcontent]

/-- Three headers, and the bytes of both numbers. -/
theorem length_encodeEcdsa (h : Bounded curve sig) :
    (encodeEcdsa sig).length = Der.furtherBytes sig.r + Der.furtherBytes sig.s + 8 := by
  have hslot := slot_bound curve
  have hsize : curve.params.fieldSize < 126 := by omega
  have hcontent := length_content_sequence h
  rw [encodeEcdsa, Der.toBytes_of_short (by omega), List.length_cons, List.length_cons,
    content_pair, List.length_append, length_integer h.r hsize, length_integer h.s hsize]
  omega

/-- The slot of P-256 is filled by the pairs that need a byte for the sign of both numbers. -/
theorem fills_p256_iff (h : Bounded .p256 sig) :
    (encodeEcdsa sig).length = EcCurve.p256.signatureSize ↔ 2 ^ 255 ≤ sig.r ∧ 2 ^ 255 ≤ sig.s := by
  have hfull {n : Nat} (hn : n < 256 ^ EcCurve.p256.params.fieldSize) :
      Der.furtherBytes n = 32 ↔ 2 ^ 255 ≤ n := by
    rw [Der.furtherBytes_eq_iff]
    constructor
    · rintro ⟨-, hle⟩
      exact hle 31 rfl
    · intro hle
      refine ⟨Nat.lt_of_lt_of_le hn (Nat.le_mul_of_pos_left _ (by decide)), ?_⟩
      rintro j hj
      obtain rfl : 31 = j := Nat.succ.inj hj
      exact hle
  have hr : Der.furtherBytes sig.r ≤ 32 := Der.furtherBytes_le h.r
  have hs : Der.furtherBytes sig.s ≤ 32 := Der.furtherBytes_le h.s
  rw [length_encodeEcdsa h, ← hfull h.r, ← hfull h.s]
  show _ = 72 ↔ _
  omega

/-- In the slot of P-224 there is always room for four more bytes. -/
theorem length_encodeEcdsa_p224 (h : Bounded .p224 sig) :
    (encodeEcdsa sig).length + 4 ≤ EcCurve.p224.signatureSize := by
  have hr : Der.furtherBytes sig.r ≤ 28 := Der.furtherBytes_le h.r
  have hs : Der.furtherBytes sig.s ≤ 28 := Der.furtherBytes_le h.s
  rw [length_encodeEcdsa h]
  show _ ≤ 68
  omega

/-! ## The way through a slot -/

/-- A filled slot for an encoding that fits. -/
theorem exists_padEcdsa (h : Bounded curve sig) :
    ∃ slot, padEcdsa curve.signatureSize (encodeEcdsa sig) = .ok slot ∧
      slot.length = curve.signatureSize := by
  obtain ⟨content, hlength, hencode⟩ := encodeEcdsa_eq h
  have hfits : (encodeEcdsa sig).length ≤ curve.signatureSize := by
    rw [hencode, List.length_cons, List.length_cons]
    exact hlength
  refine ⟨_, padEcdsa_eq_ok_iff.mpr ⟨hfits, rfl⟩, ?_⟩
  rw [List.length_append, Bytes.zeros, List.length_replicate]
  exact Nat.add_sub_cancel' hfits

variable {hash : Bytes} {scalar : Nat} {e : Error} {s s' : RandomSource}

/-- Signing fails for the hash or the bytes that it draws, and never for want of room. -/
theorem not_fails_signatureTooLong {length size : Nat} :
    ¬Fails (signEcdsa curve scalar hash) s (.signatureTooLong length size) s' := by
  intro h
  unfold signEcdsa at h
  cases hfit : Crypto.Ecdsa.fitHash? curve.params hash with
  | none =>
      rw [hfit] at h
      cases (fails_throw.mp h).1
  | some fitted =>
      rw [hfit] at h
      obtain hdraw | ⟨drawn, s₁, -, h⟩ := fails_bind.mp h
      · cases hdraw
      · cases hsign : Crypto.Ecdsa.sign? curve.hash curve.params scalar fitted drawn with
        | none =>
            rw [hsign] at h
            cases (fails_throw.mp h).1
        | some sig =>
            rw [hsign] at h
            obtain ⟨slot, hpad, -⟩ := exists_padEcdsa (bounded_of_sign? hsign)
            have hrefused : padEcdsa curve.signatureSize (encodeEcdsa sig) = .error _ :=
              congrArg Prod.fst h
            cases hpad.symm.trans hrefused

/-- For every pair in the range of a curve, the encoding that the standard asks for fits the slot of
the curve and has a length of one byte, so filling it up never fails, gives a slot of the size that
a key of the curve asks for, and leaves the encoding to be found in the slot. -/
theorem slot_of_isSignature (curve : EcCurve) (sig : Signature) (hsig : InRange curve sig)
    (der : Bytes) (hder : IsSignature sig der) :
    der.length ≤ curve.signatureSize ∧
    (∃ content : Bytes, content.length < 128 ∧
      der = Der.sequenceTag :: UInt8.ofNat content.length :: content) ∧
    (∀ length size, padEcdsa curve.signatureSize der ≠ .error (.signatureTooLong length size)) ∧
    ∃ slot, padEcdsa curve.signatureSize der = .ok slot ∧
      (∀ scalar point, slot.length = (SigningKey.ec curve scalar point).signatureSize) ∧
      unpadEcdsa? slot = some der := by
  obtain rfl := (isSignature_iff hsig.bounded).mp hder
  obtain ⟨content, hlength, hencode⟩ := encodeEcdsa_eq hsig.bounded
  obtain ⟨slot, hpad, hsize⟩ := exists_padEcdsa hsig.bounded
  have hbound := slot_bound curve
  have hfits := (padEcdsa_eq_ok_iff.mp hpad).1
  refine ⟨hfits, ⟨content, by omega, hencode⟩, ?_, slot, hpad, ?_, ?_⟩
  · intro length size hrefused
    cases hpad.symm.trans hrefused
  · intro scalar point
    exact hsize
  · exact unpadEcdsa?_padEcdsa hsig.bounded hpad

/-! ## A slot that is full, and one that is nearly empty -/

namespace Extreme

/-- The largest numbers in the range of P-256. -/
def largest : Signature := ⟨EcCurve.p256.params.n - 1, EcCurve.p256.params.n - 1⟩

/-- The smallest ones. -/
def smallest : Signature := ⟨1, 1⟩

theorem inRange_largest : InRange .p256 largest := ⟨by decide, by decide⟩

theorem inRange_smallest : InRange .p256 smallest := ⟨by decide, by decide⟩

theorem length_largest : (encodeEcdsa largest).length = EcCurve.p256.signatureSize :=
  (fills_p256_iff inRange_largest.bounded).mpr ⟨by decide, by decide⟩

theorem length_smallest : (encodeEcdsa smallest).length = 8 := by decide

end Extreme

/-- The largest pair leaves no byte of its slot free, and the smallest one 64 of them; both are
found again. -/
theorem slot_of_isSignature_extreme :
    (∃ slot, padEcdsa 72 (encodeEcdsa Extreme.largest) = .ok slot ∧
      unpadEcdsa? slot = some (encodeEcdsa Extreme.largest) ∧
      (encodeEcdsa Extreme.largest).length = slot.length) ∧
    ∃ slot, padEcdsa 72 (encodeEcdsa Extreme.smallest) = .ok slot ∧
      unpadEcdsa? slot = some (encodeEcdsa Extreme.smallest) ∧
      (encodeEcdsa Extreme.smallest).length + 64 = slot.length := by
  have hlargest := (isSignature_iff Extreme.inRange_largest.bounded).mpr rfl
  have hsmallest := (isSignature_iff Extreme.inRange_smallest.bounded).mpr rfl
  obtain ⟨-, -, -, full, hfull, hsize, hread⟩ :=
    slot_of_isSignature .p256 Extreme.largest Extreme.inRange_largest _ hlargest
  obtain ⟨-, -, -, free, hfree, hsize', hread'⟩ :=
    slot_of_isSignature .p256 Extreme.smallest Extreme.inRange_smallest _ hsmallest
  refine ⟨⟨full, hfull, hread, ?_⟩, free, hfree, hread', ?_⟩
  · rw [Extreme.length_largest, hsize 0 default]
    rfl
  · rw [Extreme.length_smallest, hsize' 0 default]
    rfl

end Firmware.Key
