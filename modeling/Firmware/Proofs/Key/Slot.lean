import Firmware.Proofs.Key.Signature

/-!
# What an ECDSA slot holds behind its signature

Signing fills the slot of a signature up with zeros.  Reading a slot takes the signature that its
own header tells and does not look behind it, so it undoes the padding but does not check it.
`unpadEcdsa?_spec` says what that comes to: padding what was read gives the slot back exactly if
only zeros follow it, and beside a slot that a key accepts there is another one of the same length,
with the same signature, which the key accepts as well, exactly if anything follows at all.

`verify_filled` is a slot with a signature of a P-224 key that does not end in zeros.
-/

namespace Firmware.Key

open Crypto.Ecdsa (Signature)

section Slots

variable {slot d behind : Bytes}

/-! ## Reading -/

theorem unpadEcdsa?_eq_some_iff :
    unpadEcdsa? slot = some d ↔ ShortSequence d ∧ ∃ behind, slot = d ++ behind := by
  constructor
  · intro h
    unfold unpadEcdsa? at h
    split at h
    · rename_i tag length rest
      split at h
      · rename_i hheader
        obtain ⟨rfl, hshort, hroom⟩ := hheader
        obtain rfl := Option.some.inj h
        have hcontent : (rest.take length.toNat).length = length.toNat :=
          List.length_take_of_le hroom
        refine ⟨⟨rest.take length.toNat, ?_, ?_⟩, rest.drop length.toNat, ?_⟩
        · rw [hcontent]
          exact hshort
        · rw [hcontent, UInt8.ofNat_toNat]
        · rw [List.cons_append, List.cons_append, List.take_append_drop]
      · cases h
    · cases h
  · rintro ⟨hshort, behind, rfl⟩
    exact unpadEcdsa?_append hshort behind

/-- A slot is the padding of what stands in front of it exactly if only zeros follow. -/
theorem padEcdsa_append_iff :
    padEcdsa (d ++ behind).length d = .ok (d ++ behind) ↔ ∀ b ∈ behind, b = 0 := by
  rw [padEcdsa_eq_ok_iff, List.length_append, Nat.add_sub_cancel_left, List.append_cancel_left_eq,
    and_iff_right (Nat.le_add_right _ _), Bytes.zeros, eq_comm, List.eq_replicate_iff,
    and_iff_right rfl]

/-- There are other bytes to put behind a signature exactly if there is room for any. -/
theorem exists_other_iff (d behind : Bytes) :
    (∃ other : Bytes, other.length = (d ++ behind).length ∧ other ≠ d ++ behind ∧
      ∃ behind', other = d ++ behind') ↔ d.length < (d ++ behind).length := by
  rw [List.length_append]
  constructor
  · rintro ⟨_, hlength, hne, behind', rfl⟩
    by_contra hfull
    rw [List.length_append] at hlength
    have hnone : behind.length = 0 := by omega
    have hnone' : behind'.length = 0 := by omega
    rw [List.length_eq_zero_iff] at hnone hnone'
    rw [hnone, hnone'] at hne
    exact hne rfl
  · intro hroom
    cases behind with
    | nil => exact absurd hroom (Nat.lt_irrefl _)
    | cons b behind =>
        obtain ⟨c, hc⟩ : ∃ c : UInt8, c ≠ b := by
          by_cases hzero : b = 0
          · exact ⟨1, by rw [hzero]; decide⟩
          · exact ⟨0, Ne.symm hzero⟩
        refine ⟨d ++ c :: behind, ?_, ?_, _, rfl⟩
        · rw [List.length_append, List.length_cons, List.length_cons]
        · intro h
          exact hc (List.cons.inj (List.append_cancel_left h)).1

/-! ## Verifying -/

theorem verify_ec_eq_ok_iff {curve : EcCurve} {point : Crypto.Curve.Point} {hash : Bytes} :
    (PublicKey.ec curve point).verify hash slot = .ok () ↔
      ∃ d sig, unpadEcdsa? slot = some d ∧ decodeEcdsa? d = some sig ∧
        Crypto.Ecdsa.verify curve.params point hash sig = true := by
  have hrequire : (PublicKey.ec curve point).verify hash slot = .ok () ↔
      verifyEcdsa curve point hash slot = true := by
    show (if _ then _ else Except.error _) = _ ↔ _
    rw [then_eq_ok_iff, and_iff_left rfl]
  rw [hrequire, verifyEcdsa, Option.bind_eq_bind]
  constructor
  · intro h
    split at h
    · cases h
    · rename_i sig hsig
      obtain ⟨d, hread, hdecode⟩ := Option.bind_eq_some_iff.mp hsig
      exact ⟨d, sig, hread, hdecode, h⟩
  · rintro ⟨d, sig, hread, hdecode, h⟩
    rw [hread, Option.bind_some, hdecode]
    exact h

/-- Whether a slot is accepted is a matter of what is read of it. -/
theorem verify_ec_of_read (hread : unpadEcdsa? slot = some d) (curve : EcCurve)
    (point : Crypto.Curve.Point) (hash : Bytes) :
    (PublicKey.ec curve point).verify hash slot = .ok () ↔
      ∃ sig, decodeEcdsa? d = some sig ∧
        Crypto.Ecdsa.verify curve.params point hash sig = true := by
  rw [verify_ec_eq_ok_iff]
  constructor
  · rintro ⟨d', sig, hread', hsig⟩
    obtain rfl := Option.some.inj (hread.symm.trans hread')
    exact ⟨sig, hsig⟩
  · rintro ⟨sig, hsig⟩
    exact ⟨d, sig, hread, hsig⟩

/-- What is read of a slot is its front, whatever follows.  It is padded to the slot exactly if
zeros follow; and of two slots that differ only in what follows, a key accepts both or none, so that
an accepted slot is the only one of its length with its signature exactly if nothing follows. -/
theorem unpadEcdsa?_spec (slot d : Bytes) (hread : unpadEcdsa? slot = some d) :
    (∃ behind, slot = d ++ behind ∧
      (padEcdsa slot.length d = .ok slot ↔ ∀ b ∈ behind, b = 0)) ∧
    (∀ behind, unpadEcdsa? (d ++ behind) = some d) ∧
    ∀ curve point hash,
      ((PublicKey.ec curve point).verify hash slot = .ok () ↔
        ∃ sig, decodeEcdsa? d = some sig ∧
          Crypto.Ecdsa.verify curve.params point hash sig = true) ∧
      ((PublicKey.ec curve point).verify hash slot = .ok () →
        ((∃ other, other.length = slot.length ∧ other ≠ slot ∧ unpadEcdsa? other = some d ∧
          (PublicKey.ec curve point).verify hash other = .ok ()) ↔ d.length < slot.length)) := by
  obtain ⟨hshort, behind, rfl⟩ := unpadEcdsa?_eq_some_iff.mp hread
  refine ⟨⟨behind, rfl, padEcdsa_append_iff⟩, unpadEcdsa?_append hshort, fun curve point hash => ?_⟩
  have haccepts := verify_ec_of_read hread curve point hash
  refine ⟨haccepts, fun hverify => ?_⟩
  rw [← exists_other_iff]
  constructor
  · rintro ⟨other, hlength, hne, hread', -⟩
    exact ⟨other, hlength, hne, (unpadEcdsa?_eq_some_iff.mp hread').2⟩
  · rintro ⟨_, hlength, hne, behind', rfl⟩
    have hread' := unpadEcdsa?_append hshort behind'
    exact ⟨_, hlength, hne, hread', (verify_ec_of_read hread' _ _ _).mpr (haccepts.mp hverify)⟩

end Slots

/-! ## A slot that does not end in zeros -/

namespace Filled

def point : Crypto.Curve.Point where
  x := 0x9f961aa3a15a97d442db365a9e9fedca313f70e9fc91dff2a5d88fe2
  y := 0xe30c83a327f83139cc13059b88ed38695f123bb979afbb84c1867049

def key : PublicKey := .ec .p224 point

def hash : Bytes :=
  Bytes.ofNatBE 32 0x2d711642b726b04401627ca9fbac32f5c8530fb1903cc4db02258717921a4881

def signature : Signature where
  r := 0x44a2aa95f40580235950b1e1c8bf8423b99bd6b66cd8d3c544e66f99
  s := 0x133df382d0241431d8cc647c0f2c810f312a302c3b46edf9a87fdf6b

/-- The signature with six bytes behind it that fill its slot. -/
def slot (fill : UInt8) : Bytes := encodeEcdsa signature ++ List.replicate 6 fill

theorem bounded : Bounded .p224 signature := by
  constructor
  · decide
  · decide

theorem shortSequence : ShortSequence (encodeEcdsa signature) := by
  obtain ⟨content, hlength, hencode⟩ := encodeEcdsa_eq bounded
  have hbound := slot_bound .p224
  exact ⟨content, by omega, hencode⟩

theorem length_signature : (encodeEcdsa signature).length = 62 := by decide +kernel

set_option maxRecDepth 100000 in
theorem verify_signature :
    Crypto.Ecdsa.verify EcCurve.p224.params point hash signature = true := by
  decide +kernel

theorem verify_slot (fill : UInt8) : key.verify hash (slot fill) = .ok () :=
  verify_ec_eq_ok_iff.mpr ⟨_, signature, unpadEcdsa?_append shortSequence _,
    decodeEcdsa?_encodeEcdsa bounded, verify_signature⟩

end Filled

/-- Beside the slot of a signature with other bytes than zeros behind it there is another one that
its key accepts. -/
theorem unpadEcdsa?_spec_filled :
    unpadEcdsa? (Filled.slot 0xaa) = some (encodeEcdsa Filled.signature) ∧
    ∃ other, other.length = (Filled.slot 0xaa).length ∧ other ≠ Filled.slot 0xaa ∧
      unpadEcdsa? other = some (encodeEcdsa Filled.signature) ∧
      Filled.key.verify Filled.hash other = .ok () := by
  have hread : unpadEcdsa? (Filled.slot 0xaa) = some (encodeEcdsa Filled.signature) :=
    unpadEcdsa?_append Filled.shortSequence _
  have hroom : (encodeEcdsa Filled.signature).length < (Filled.slot 0xaa).length := by
    rw [Filled.slot, List.length_append, List.length_replicate]
    omega
  obtain ⟨-, -, hkeys⟩ := unpadEcdsa?_spec _ _ hread
  exact ⟨hread, ((hkeys _ _ _).2 (Filled.verify_slot 0xaa)).mpr hroom⟩

/-- Two slots of one length, with a signature and other bytes behind it, are both accepted, and one
of them is not what padding makes of the signature. -/
theorem verify_filled :
    unpadEcdsa? (Filled.slot 0xaa) = some (encodeEcdsa Filled.signature) ∧
    padEcdsa (Filled.slot 0xaa).length (encodeEcdsa Filled.signature) ≠ .ok (Filled.slot 0xaa) ∧
    (Filled.slot 0xaa).length = EcCurve.p224.signatureSize ∧
    (Filled.slot 0).length = EcCurve.p224.signatureSize ∧ Filled.slot 0xaa ≠ Filled.slot 0 ∧
    Filled.key.verify Filled.hash (Filled.slot 0xaa) = .ok () ∧
    Filled.key.verify Filled.hash (Filled.slot 0) = .ok () := by
  have hlength : ∀ fill, (Filled.slot fill).length = EcCurve.p224.signatureSize := by
    intro fill
    rw [Filled.slot, List.length_append, List.length_replicate, Filled.length_signature]
    rfl
  have hfill : (0xaa : UInt8) ∈ List.replicate 6 0xaa := List.mem_cons_self
  refine ⟨unpadEcdsa?_append Filled.shortSequence _, fun h => ?_, hlength 0xaa, hlength 0,
    fun h => ?_, Filled.verify_slot 0xaa, Filled.verify_slot 0⟩
  · exact absurd (padEcdsa_append_iff.mp h 0xaa hfill) (by decide)
  · have hbehind : List.replicate 6 (0xaa : UInt8) = List.replicate 6 0 :=
      List.append_cancel_left h
    exact absurd (List.cons.inj hbehind).1 (by decide)

end Firmware.Key
