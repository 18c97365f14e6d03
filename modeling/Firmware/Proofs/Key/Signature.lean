import Firmware.Key.Signature
import Firmware.Proofs.Crypto.RsaPadding
import Firmware.Proofs.Key.Structure
import Firmware.Proofs.Run

/-!
# Signatures that their own key accepts

Whether a signature is correct is a matter of the algorithms: `AcceptsOwn` says of a key that its
public half accepts what the algorithm makes with the private half.  What this module adds is the
way from there to the bytes in an image and back: `verify_of_sign`.  In images of the older format
an RSA key may be asked for another padding; `AcceptsOwnWith` and `verifyLegacy_of_signLegacy` are
the same for a given padding.

For ECDSA that is a way through a slot.  The encoding of a pair of numbers below the order of the
curve fits the slot of the curve and is found in it again by its own length, whatever zeros follow:
`unpadEcdsa?_padEcdsa` and `decodeEcdsa?_encodeEcdsa`.

Signing may fail.  A valid RSA key with prime factors and a size that signs never does
(`exists_yields_sign_rsa`), and an ECDSA key does not once it has found a pair of numbers
(`exists_yields_sign_ec`).
-/

namespace Firmware.Key

open Crypto.Ecdsa (Signature)

/-! ## ECDSA signatures in slots -/

/-- A pair of numbers that have at most as many bytes as a field element. -/
structure Bounded (curve : EcCurve) (sig : Signature) : Prop where
  r : sig.r < 256 ^ curve.params.fieldSize
  s : sig.s < 256 ^ curve.params.fieldSize

/-- A DER sequence whose length is told by one byte. -/
def ShortSequence (encoded : Bytes) : Prop :=
  ∃ content : Bytes, content.length < 128 ∧
    encoded = Der.sequenceTag :: UInt8.ofNat content.length :: content

/-- Such a sequence is found in front of any bytes, since it tells its own length. -/
theorem unpadEcdsa?_append {encoded : Bytes} (h : ShortSequence encoded) (behind : Bytes) :
    unpadEcdsa? (encoded ++ behind) = some encoded := by
  obtain ⟨content, hlength, rfl⟩ := h
  have hcontent : (UInt8.ofNat content.length).toNat = content.length := by
    apply UInt8.toNat_ofNat_of_lt'
    show _ < 256
    omega
  have hshort : UInt8.ofNat content.length < 0x80 := by
    rw [UInt8.lt_iff_toNat_lt, hcontent]
    exact hlength
  have hroom : (UInt8.ofNat content.length).toNat ≤ (content ++ behind).length := by
    rw [hcontent, List.length_append]
    exact Nat.le_add_right _ _
  rw [List.cons_append, List.cons_append, unpadEcdsa?, if_pos ⟨rfl, hshort, hroom⟩, hcontent,
    List.take_left]

/-- Padding puts zeros behind an encoding. -/
theorem padEcdsa_eq_ok_iff {size : Nat} {encoded slot : Bytes} :
    padEcdsa size encoded = .ok slot ↔
      encoded.length ≤ size ∧ encoded ++ Bytes.zeros (size - encoded.length) = slot := by
  unfold padEcdsa
  rw [else_eq_ok_iff, Nat.not_lt, Except.ok.injEq]
  refine and_congr_right fun hfits => ?_
  rw [Bytes.resize, List.take_of_length_le hfits, Bytes.zeros]

/-- The slot is large enough for the headers of three elements, of two bytes each, and for two
numbers with a clear top bit. -/
theorem slot_bound (curve : EcCurve) :
    2 * (curve.params.fieldSize + 4) ≤ curve.signatureSize ∧ curve.signatureSize < 128 := by
  cases curve with
  | p224 => decide
  | p256 => decide

theorem length_toBytes_integer {n k : Nat} (h : n < 256 ^ k) (hk : k < 126) :
    (Der.integer n).toBytes.length ≤ k + 3 := by
  have hfurther := Der.furtherBytes_le h
  have hcontent : (Der.integer n).content.length = Der.furtherBytes n + 1 := by
    rw [Der.content_integer, Bytes.length_ofNatBE]
  rw [Der.toBytes_of_short (by omega), List.length_cons, List.length_cons]
  omega

/-- The two numbers as the content of a sequence. -/
theorem length_content_sequence {curve : EcCurve} {sig : Signature} (h : Bounded curve sig) :
    (Der.sequence [Der.integer sig.r, Der.integer sig.s]).content.length + 2 ≤
      curve.signatureSize := by
  have hslot := slot_bound curve
  have hr := length_toBytes_integer h.r (by omega)
  have hs := length_toBytes_integer h.s (by omega)
  show ([Der.integer sig.r, Der.integer sig.s].flatMap Der.Element.toBytes).length + 2 ≤ _
  rw [List.flatMap_cons, List.flatMap_cons, List.flatMap_nil, List.append_nil, List.length_append]
  omega

/-- The encoding starts with its tag and its length, in one byte. -/
theorem encodeEcdsa_eq {curve : EcCurve} {sig : Signature} (h : Bounded curve sig) :
    ∃ content, content.length + 2 ≤ curve.signatureSize ∧
      encodeEcdsa sig = Der.sequenceTag :: UInt8.ofNat content.length :: content := by
  have hlength := length_content_sequence h
  have hslot := slot_bound curve
  exact ⟨_, hlength, Der.toBytes_of_short (by omega)⟩

theorem decodeEcdsa?_encodeEcdsa {curve : EcCurve} {sig : Signature} (h : Bounded curve sig) :
    decodeEcdsa? (encodeEcdsa sig) = some sig := by
  have hlength := length_content_sequence h
  have hslot := slot_bound curve
  have hsize : (encodeEcdsa sig).length ≤ Der.maxSize := by
    refine Nat.le_trans (Der.length_toBytes_le (by omega)) ?_
    show _ ≤ 0xfffffff
    omega
  have hparse : Der.parse? (encodeEcdsa sig) =
      some (Der.sequence [Der.integer sig.r, Der.integer sig.s]) := Der.parse?_sequence hsize
  have hfields : (Der.sequence [Der.integer sig.r, Der.integer sig.s]).sequence? =
      some [Der.integer sig.r, Der.integer sig.s] := Der.sequence?_sequence_of_size rfl hsize
  unfold decodeEcdsa?
  rw [hparse]
  show (Der.Element.sequence? _ >>= _) = _
  rw [hfields]
  show ((Der.integer sig.r).natural? >>= fun r => _) = _
  rw [Der.natural?_integer]
  show ((Der.integer sig.s).natural? >>= fun s => _) = _
  rw [Der.natural?_integer]
  rfl

theorem unpadEcdsa?_padEcdsa {curve : EcCurve} {sig : Signature} (h : Bounded curve sig)
    {slot : Bytes} (hslot : padEcdsa curve.signatureSize (encodeEcdsa sig) = .ok slot) :
    unpadEcdsa? slot = some (encodeEcdsa sig) := by
  obtain ⟨content, hlength, hencode⟩ := encodeEcdsa_eq h
  have hbound := slot_bound curve
  obtain ⟨-, rfl⟩ := padEcdsa_eq_ok_iff.mp hslot
  exact unpadEcdsa?_append ⟨content, by omega, hencode⟩ _

theorem fitHash?_of_length {curve : Crypto.Curve} {hash : Bytes}
    (h : hash.length = curve.fieldSize) : Crypto.Ecdsa.fitHash? curve hash = some hash := by
  have hfits : ¬hash.length < curve.fieldSize / 2 := by omega
  unfold Crypto.Ecdsa.fitHash?
  rw [if_neg hfits, h, Nat.sub_self, ← h, List.take_length]
  rfl

/-- Both numbers of a signature are reduced by the order of the curve. -/
theorem bounded_of_sign? {curve : EcCurve} {hashFunction : Crypto.HashFunction} {scalar : Nat}
    {fitted drawn : Bytes} {sig : Signature}
    (h : Crypto.Ecdsa.sign? hashFunction curve.params scalar fitted drawn = some sig) :
    Bounded curve sig := by
  obtain ⟨k, -, h⟩ := Option.bind_eq_some_iff.mp h
  obtain ⟨point, -, h⟩ := Option.bind_eq_some_iff.mp h
  have horder := order_lt curve
  have hpos : 0 < curve.params.n := by
    cases curve with
    | p224 => decide
    | p256 => decide
  change (if _ then _ else _) = _ at h
  split at h
  · cases h
  · obtain rfl := Option.some.inj h
    exact ⟨Nat.lt_trans (Nat.mod_lt _ hpos) horder, Nat.lt_trans (Nat.mod_lt _ hpos) horder⟩

/-! ## Keys and their own signatures -/

/-- The public half accepts, for the same hash, whatever the algorithm makes with the private half
and the bytes that it draws. -/
def SigningKey.AcceptsOwn : SigningKey → Prop
  | .rsa key => ∀ hash salt sig, salt.length = Crypto.Rsa.saltSize →
      key.signPss? hash salt = some sig → key.toPublic.verifyPss hash sig = true
  | .ec curve scalar point => ∀ hash fitted drawn sig,
      Crypto.Ecdsa.fitHash? curve.params hash = some fitted →
      Crypto.Ecdsa.sign? curve.hash curve.params scalar fitted drawn = some sig →
      Crypto.Ecdsa.verify curve.params point hash sig = true
  | .ed25519 seed => ∀ hash,
      Crypto.Ed25519.verify (Crypto.Ed25519.publicKey seed) hash
        (Crypto.Ed25519.sign seed hash) = true

/-- For a valid RSA key this holds without any assumption. -/
theorem acceptsOwn_rsa {key : Crypto.Rsa.PrivateKey} (hvalid : key.isValid = true) :
    (SigningKey.rsa key).AcceptsOwn :=
  fun _ _ _ hsalt h => Crypto.Rsa.verifyPss_of_signPss? (Crypto.Rsa.sound_of_isValid hvalid) hsalt h

theorem algorithm_publicKey (key : SigningKey) : key.publicKey.algorithm = key.algorithm := by
  cases key with
  | rsa key => rfl
  | ec curve scalar point => rfl
  | ed25519 seed => rfl

theorem signatureSize_publicKey (key : SigningKey) :
    key.publicKey.signatureSize = key.signatureSize := by
  cases key with
  | rsa key => rfl
  | ec curve scalar point => rfl
  | ed25519 seed => rfl

theorem signatureTag_publicKey (key : SigningKey) :
    key.publicKey.signatureTag = key.signatureTag := by
  cases key with
  | rsa key => rfl
  | ec curve scalar point => rfl
  | ed25519 seed => rfl

variable {s s' : RandomSource} {hash data : Bytes}

theorem yields_signPss {key : Crypto.Rsa.PrivateKey}
    (h : Yields (signPss key hash) s data s') :
    ∃ salt, salt.length = Crypto.Rsa.saltSize ∧ key.signPss? hash salt = some data := by
  obtain ⟨salt, _, hdraw, h⟩ := yields_bind.mp h
  have hlength := Random.length_of_yields_draw hdraw
  cases hsign : key.signPss? hash salt with
  | none =>
      rw [hsign] at h
      exact absurd h not_yields_throw
  | some sig =>
      rw [hsign] at h
      obtain ⟨rfl, -⟩ := yields_pure.mp h
      exact ⟨salt, hlength, hsign⟩

theorem yields_signEcdsa {curve : EcCurve} {scalar : Nat}
    (h : Yields (signEcdsa curve scalar hash) s data s') :
    ∃ fitted drawn sig, Crypto.Ecdsa.fitHash? curve.params hash = some fitted ∧
      Crypto.Ecdsa.sign? curve.hash curve.params scalar fitted drawn = some sig ∧
      padEcdsa curve.signatureSize (encodeEcdsa sig) = .ok data := by
  unfold signEcdsa at h
  cases hfit : Crypto.Ecdsa.fitHash? curve.params hash with
  | none =>
      rw [hfit] at h
      exact absurd h not_yields_throw
  | some fitted =>
      rw [hfit] at h
      obtain ⟨drawn, _, -, h⟩ := yields_bind.mp h
      cases hsign : Crypto.Ecdsa.sign? curve.hash curve.params scalar fitted drawn with
      | none =>
          rw [hsign] at h
          exact absurd h not_yields_throw
      | some sig =>
          rw [hsign] at h
          exact ⟨fitted, drawn, sig, rfl, hsign, (Random.yields_lift.mp h).1⟩

theorem signatureTag_rsa_eq_ok_iff {key : Crypto.Rsa.PrivateKey} {tag : UInt8} :
    (SigningKey.rsa key).signatureTag = .ok tag ↔
      key.size = 256 ∧ Tlv.rsa2048Tag = tag ∨ key.size = 384 ∧ Tlv.rsa3072Tag = tag := by
  show (if key.size = 256 then _ else if key.size = 384 then _ else _) = _ ↔ _
  by_cases hshort : key.size = 256
  · simp [hshort]
  · by_cases hlong : key.size = 384
    · simp [hlong]
    · simp [hshort, hlong]

/-- A valid RSA key with prime factors, of a size that signs, signs every hash, whatever bytes are
drawn. -/
theorem exists_yields_sign_rsa {key : Crypto.Rsa.PrivateKey} (hkey : key.HasPrimes) {tag : UInt8}
    (htag : (SigningKey.rsa key).signatureTag = .ok tag)
    (hhash : hash.length = Crypto.Rsa.hashSize) (s : RandomSource) :
    ∃ data s', Yields ((SigningKey.rsa key).sign hash) s data s' ∧
      data.length = (SigningKey.rsa key).signatureSize := by
  obtain ⟨salt, s', hdraw⟩ : ∃ salt s', s.draw Crypto.Rsa.saltSize = (salt, s') := ⟨_, _, rfl⟩
  have hyields : Yields (Random.draw Crypto.Rsa.saltSize : Random Error Bytes) s salt s' :=
    Random.yields_draw.mpr hdraw
  have hsalt := Random.length_of_yields_draw hyields
  have hroom : Crypto.Rsa.hashSize + salt.length + 3 ≤ key.size := by
    rw [hsalt]
    rcases signatureTag_rsa_eq_ok_iff.mp htag with ⟨hsize, -⟩ | ⟨hsize, -⟩
    · rw [hsize]
      decide
    · rw [hsize]
      decide
  obtain ⟨data, hsign, hlength⟩ :=
    Crypto.Rsa.exists_signPss? hkey hhash hroom
  refine ⟨data, s', yields_bind.mpr ⟨salt, s', hyields, ?_⟩, hlength⟩
  rw [hsign]
  exact yields_pure.mpr ⟨rfl, rfl⟩

/-- An ECDSA signature always has room in its slot, and it comes first there. -/
theorem exists_yields_sign_ec {curve : EcCurve} {scalar : Nat} {point : Crypto.Curve.Point}
    {fitted : Bytes} {sig : Signature} (hfit : Crypto.Ecdsa.fitHash? curve.params hash = some fitted)
    (hdraw : s.draw curve.params.fieldSize = (data, s'))
    (hsign : Crypto.Ecdsa.sign? curve.hash curve.params scalar fitted data = some sig) :
    ∃ slot, Yields ((SigningKey.ec curve scalar point).sign hash) s slot s' ∧
      slot.length = (SigningKey.ec curve scalar point).signatureSize ∧ encodeEcdsa sig <+: slot := by
  obtain ⟨content, hcontent, hencode⟩ := encodeEcdsa_eq (bounded_of_sign? hsign)
  have hfits : (encodeEcdsa sig).length ≤ curve.signatureSize := by
    rw [hencode]
    exact hcontent
  refine ⟨encodeEcdsa sig ++ Bytes.zeros (curve.signatureSize - (encodeEcdsa sig).length), ?_, ?_,
    List.prefix_append _ _⟩
  · show Yields (signEcdsa curve scalar hash) s _ s'
    unfold signEcdsa
    rw [hfit]
    refine yields_bind.mpr ⟨data, s', Random.yields_draw.mpr hdraw, ?_⟩
    rw [hsign]
    exact Random.yields_lift.mpr ⟨padEcdsa_eq_ok_iff.mpr ⟨hfits, rfl⟩, rfl⟩
  · rw [List.length_append, Bytes.length_zeros, Nat.add_sub_cancel' hfits]
    rfl

/-- What a key has signed, its public half verifies, through whatever slot the signature goes. -/
theorem verify_of_sign {key : SigningKey} (haccepts : key.AcceptsOwn)
    (h : Yields (key.sign hash) s data s') (hsize : data.length = key.signatureSize) :
    key.publicKey.verify hash data = .ok () := by
  cases key with
  | rsa key =>
      obtain ⟨salt, hlength, hsign⟩ := yields_signPss h
      exact if_pos (haccepts hash salt data hlength hsign)
  | ec curve scalar point =>
      obtain ⟨fitted, drawn, sig, hfit, hsign, hpad⟩ := yields_signEcdsa h
      have hbounded := bounded_of_sign? hsign
      refine if_pos ?_
      rw [verifyEcdsa, unpadEcdsa?_padEcdsa hbounded hpad, Option.bind_eq_bind, Option.bind_some,
        decodeEcdsa?_encodeEcdsa hbounded]
      exact haccepts hash fitted drawn sig hfit hsign
  | ed25519 seed =>
      have hrun : Yields (pure (Crypto.Ed25519.sign seed hash) : Random Error Bytes) s data s' := h
      obtain ⟨rfl, -⟩ := yields_pure.mp hrun
      have haccepted := haccepts hash
      rw [← signatureSize_publicKey] at hsize
      generalize Crypto.Ed25519.sign seed hash = signature at haccepted hsize
      rw [SigningKey.publicKey] at hsize
      rw [SigningKey.publicKey, PublicKey.verify, if_neg (not_not_intro hsize)]
      exact if_pos haccepted

/-! ## Signatures in images of the older format -/

/-- The public half accepts what is made with the private half and a given padding. -/
def SigningKey.AcceptsOwnWith (padding : RsaPadding) (key : SigningKey) : Prop :=
  match key, padding with
  | .rsa key, .pkcs1 => ∀ hash sig,
      key.signPkcs1? hash = some sig → key.toPublic.verifyPkcs1 hash sig = true
  | key, _ => key.AcceptsOwn

/-- For a valid RSA key this, too, holds without any assumption. -/
theorem acceptsOwnWith_rsa {key : Crypto.Rsa.PrivateKey} (hvalid : key.isValid = true)
    (padding : RsaPadding) : (SigningKey.rsa key).AcceptsOwnWith padding := by
  cases padding with
  | pss => exact acceptsOwn_rsa hvalid
  | pkcs1 =>
      intro _ _ h
      exact Crypto.Rsa.verifyPkcs1_of_signPkcs1? (Crypto.Rsa.sound_of_isValid hvalid) h

theorem legacySignatureTag_publicKey (key : SigningKey) :
    key.publicKey.legacySignatureTag = key.legacySignatureTag := by
  cases key with
  | rsa key => rfl
  | ec curve scalar point => rfl
  | ed25519 seed => rfl

/-- Only RSA keys look at the padding. -/
theorem verifyLegacy_of_ne_rsa {key : PublicKey} (h : key.algorithm ≠ .rsa) (hash sig : Bytes)
    (a b : RsaPadding) : key.verifyLegacy hash sig a = key.verifyLegacy hash sig b := by
  cases key with
  | rsa key => exact absurd rfl h
  | ec curve point => rfl
  | ed25519 point => rfl

theorem yields_signPkcs1 {key : Crypto.Rsa.PrivateKey}
    (h : Yields ((SigningKey.rsa key).signLegacy hash .pkcs1) s data s') :
    key.signPkcs1? hash = some data := by
  dsimp only [SigningKey.signLegacy] at h
  cases hsign : key.signPkcs1? hash with
  | none =>
      rw [hsign] at h
      exact absurd h not_yields_throw
  | some sig =>
      rw [hsign] at h
      obtain ⟨rfl, -⟩ := yields_pure.mp h
      rfl

/-- What a key has signed with a padding, its public half verifies with that padding. -/
theorem verifyLegacy_of_signLegacy {key : SigningKey} {padding : RsaPadding}
    (haccepts : key.AcceptsOwnWith padding) (h : Yields (key.signLegacy hash padding) s data s')
    (hsize : data.length = key.signatureSize) :
    key.publicKey.verifyLegacy hash data padding = .ok () := by
  cases key with
  | rsa key =>
      cases padding with
      | pkcs1 => exact if_pos (haccepts hash data (yields_signPkcs1 h))
      | pss =>
          have hown : (SigningKey.rsa key).AcceptsOwn := haccepts
          exact verify_of_sign hown h hsize
  | ec curve scalar point =>
      have hown : (SigningKey.ec curve scalar point).AcceptsOwn := haccepts
      exact verify_of_sign hown h hsize
  | ed25519 seed => exact absurd h not_yields_throw

end Firmware.Key
