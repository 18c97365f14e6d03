import Firmware.Image.Format
import Firmware.Proofs.Build.Encrypted
import Firmware.Proofs.Build.Outcome
import Firmware.Proofs.Crypto.Sha256

/-!
# What the random bytes of a build can change

`alike_of_build` : two images that are built from one plan with different random bytes have the same
header and the same layout, and the hash, the key hashes and the Ed25519 signatures in them are the
same.  What is left to chance is the bytes of the other signatures, of the wrapped secret and of an
encrypted body, and never how many of them there are.

The two runs are not compared step by step.  They draw from their sources at different points, and
nothing is known of what they have drawn; but what each of them yields satisfies `Builds`, and that
fixes everything but those bytes.  Of a signature it fixes the length, since the builder refuses a
signature that does not have the size that its key promises, and an ECDSA signature has it because
its encoding was filled up.  The hash is that of the plaintext and so it is fixed as well.
-/

namespace Firmware.Build

open Key (SigningKey)

variable {p : Plan} {hash : Bytes}

/-! ## Values that are alike -/

/-- Two values that can be told apart by their data only, and not even by that unless they hold a
signature that is made with random bytes, or a secret. -/
structure Alike (t u : Tlv) : Prop where
  tag : t.tag = u.tag
  pad : t.pad = u.pad
  length : t.data.length = u.data.length
  data : t.tag = Tlv.sha256Tag ∨ t.tag = Tlv.keyHashTag ∨ t.tag = Tlv.ed25519Tag → t.data = u.data

theorem Alike.refl (t : Tlv) : Alike t t := ⟨rfl, rfl, rfl, fun _ => rfl⟩

/-- Only Ed25519 keys make the signatures that are marked as such. -/
theorem exists_seed_of_signatureTag {key : SigningKey}
    (h : key.signatureTag = .ok Tlv.ed25519Tag) : ∃ seed, key = .ed25519 seed := by
  cases key with
  | rsa key =>
      change (if _ then _ else if _ then _ else _) = _ at h
      split at h
      · cases h
      · split at h
        · cases h
        · cases h
  | ec curve scalar point =>
      cases curve with
      | p224 => cases h
      | p256 => cases h
  | ed25519 seed => exact ⟨seed, rfl⟩

theorem Signs.data_of_ed25519 {seed : Bytes} {t : Tlv} (h : Signs hash (.ed25519 seed) t) :
    t.data = Crypto.Ed25519.sign seed hash := by
  obtain ⟨_, _, hmade⟩ := h.made
  have hrun : Yields (pure (Crypto.Ed25519.sign seed hash) : Random Key.Error Bytes) _ t.data _ :=
    hmade
  exact (yields_pure.mp hrun).1.symm

theorem Signs.alike {key : SigningKey} {t u : Tlv} (ht : Signs hash key t) (hu : Signs hash key u) :
    Alike t u := by
  have htag : t.tag = u.tag := Except.ok.inj (ht.tag.symm.trans hu.tag)
  refine ⟨htag, ht.pad.trans hu.pad.symm, ht.size.trans hu.size.symm, ?_⟩
  obtain ⟨hkeyHash, hsha256, -⟩ := Tlv.tags_of_isSignature (isSignature_of_signatureTag ht.tag)
  rintro (h | h | h)
  · exact absurd h hsha256
  · exact absurd h hkeyHash
  · obtain ⟨seed, rfl⟩ := exists_seed_of_signatureTag (h ▸ ht.tag)
    rw [ht.data_of_ed25519, hu.data_of_ed25519]

/-! ## The area -/

theorem alike_pairs {keys : List SigningKey} {ts us : List Tlv}
    (ht : List.Forall₂ (Signs hash) keys ts) (hu : List.Forall₂ (Signs hash) keys us) :
    List.Forall₂ Alike (pairs keys ts) (pairs keys us) := by
  induction ht generalizing us with
  | nil =>
      cases hu
      exact .nil
  | cons hsigns _ ih =>
      cases hu with
      | cons hsigns' hu => exact .cons (.refl _) (.cons (hsigns.alike hsigns') (ih hu))

/-- Both runs wrap a secret or none does, and the key is the same. -/
theorem Encrypts.alike {body body' : Bytes} {wrapped wrapped' : Option Tlv}
    (h : Encrypts p body wrapped) (h' : Encrypts p body' wrapped') :
    List.Forall₂ Alike wrapped.toList wrapped'.toList := by
  cases h with
  | plain hnone =>
      have hnone' : wrapped'.isSome = false := by rw [h'.isSome_eq, hnone, Option.isSome_none]
      rw [Option.isSome_eq_false_iff, Option.isNone_iff_eq_none] at hnone'
      subst hnone'
      exact .nil
  | @wrapped data key secret t s s' hkey hparse hwrap =>
      obtain ⟨secret', u, _, _, rfl, -, hwrap'⟩ := h'.exists_secret hkey hparse
      obtain ⟨htag, hpad, hlength⟩ := Secret.shape_of_wrap hwrap
      obtain ⟨htag', hpad', hlength'⟩ := Secret.shape_of_wrap hwrap'
      refine .cons ?_ .nil
      refine ⟨htag.trans htag'.symm, hpad.trans hpad'.symm, hlength.trans hlength'.symm, ?_⟩
      obtain ⟨hkeyHash, hsha256⟩ := Tlv.tags_of_isSecret (Secret.isSecret_of_wrap hwrap)
      rintro (h | h | h)
      · exact absurd h hsha256
      · exact absurd h hkeyHash
      · have hsecret := Secret.isSecret_of_wrap hwrap
        rw [h] at hsecret
        cases hsecret

/-! ## The layout -/

theorem size_eq_of_alike {t u : Tlv} (h : Alike t u) : t.size = u.size :=
  congrArg Tlv.sizeFor h.length

theorem areaSize_eq_of_alike {ts us : List Tlv} (h : List.Forall₂ Alike ts us) :
    Tlv.areaSize ts = Tlv.areaSize us := by
  induction h with
  | nil => rfl
  | cons hhead _ ih => exact congrArg₂ (· + ·) (size_eq_of_alike hhead) ih

theorem offsetsFrom_eq_of_alike {ts us : List Tlv} (h : List.Forall₂ Alike ts us) (start : Nat) :
    Tlv.offsetsFrom start ts = Tlv.offsetsFrom start us := by
  induction h generalizing start with
  | nil => rfl
  | cons hhead _ ih => rw [Tlv.offsetsFrom, Tlv.offsetsFrom, size_eq_of_alike hhead, ih]

/-- The layout of a file is made of lengths. -/
theorem layout_eq_of_alike {a b : Image} (hpad : a.pad.length = b.pad.length)
    (hbody : a.body.length = b.body.length) (htlvs : List.Forall₂ Alike a.tlvs b.tlvs) :
    a.offsets = b.offsets ∧ a.totalSize = b.totalSize := by
  constructor
  · unfold Image.offsets
    dsimp only
    rw [hpad, hbody, offsetsFrom_eq_of_alike htlvs]
  · unfold Image.totalSize Image.tlvTotalSize
    rw [hpad, hbody, areaSize_eq_of_alike htlvs]

/-! ## All of it -/

/-- Whatever bytes a plan is built with, the header, the padding and the layout come out the same,
and so do the hash, the key hashes, the Ed25519 signatures, and a body that is not encrypted. -/
theorem alike_of_build (p : Plan) (s s' : RandomSource) (a b : Image)
    (ha : p.build.eval s = .ok a) (hb : p.build.eval s' = .ok b) :
    a.header = b.header ∧ a.pad = b.pad ∧ a.body.length = b.body.length ∧
      List.Forall₂ Alike a.tlvs b.tlvs ∧ a.offsets = b.offsets ∧ a.totalSize = b.totalSize ∧
      (p.wrapKey = none → a.body = b.body) := by
  obtain ⟨hash, signatures, wrapped, ha⟩ := builds_of_build ha
  obtain ⟨hash', signatures', wrapped', hb⟩ := builds_of_build hb
  have hheader : a.header = b.header := ha.header.trans hb.header.symm
  have hpad : a.pad = b.pad := ha.pad.trans hb.pad.symm
  have hbody : a.body.length = b.body.length :=
    ha.encrypted.length_eq.trans hb.encrypted.length_eq.symm
  obtain rfl : hash = hash' := by rw [ha.covers, hb.covers, hheader, hpad]
  have htlvs : List.Forall₂ Alike a.tlvs b.tlvs := by
    rw [ha.tlvs, hb.tlvs]
    exact .cons (.refl _)
      (List.rel_append (alike_pairs ha.signed hb.signed) (ha.encrypted.alike hb.encrypted))
  obtain ⟨hoffsets, hsize⟩ := layout_eq_of_alike (congrArg List.length hpad) hbody htlvs
  refine ⟨hheader, hpad, hbody, htlvs, hoffsets, hsize, ?_⟩
  intro hplain
  rw [ha.encrypted.body_eq hplain, hb.encrypted.body_eq hplain]

/-! ## An image that is sealed twice

The plan of the sealed image with a second signer, whose ECDSA signatures vary in length.  The bytes
come from sources that yield one byte over and over, so it does not matter how many of them were
drawn before that signature.
-/

namespace Resealed

open Crypto.Ecdsa (Signature)
open Key (EcCurve encodeEcdsa exists_yields_sign_ec fitHash?_of_length)

def first : SigningKey := .ed25519 (List.replicate 32 7)

/-- The key with the scalar one. -/
def second : SigningKey := .ec .p256 1 Crypto.Curve.p256.base

def plan : Plan := { Sealed.plan with keys := [first, second] }

/-- The length that stands in the encoding of the ECDSA signature. -/
def encodedLength (img : Image) : Option UInt8 := img.tlvs[4]?.bind (·.data[1]?)

set_option maxRecDepth 100000 in
theorem nodup_keyHashes : plan.keyHashes.Nodup := by
  unfold Plan.keyHashes Key.PublicKey.keyHash
  simp only [Crypto.Sha256.sha256_eq_digest]
  decide +kernel

/-- The source that yields one byte over and over, from a position onwards. -/
def constant (b : UInt8) (position : Nat) : RandomSource := { RandomSource.cycle [b] with position }

theorem draw_constant (b : UInt8) (position n : Nat) :
    (constant b position).draw n = (List.replicate n b, constant b (position + n)) := by
  have hstream : ∀ i, (constant b position).stream i = b := by
    intro i
    show #[b].getD (i % 1) 0 = b
    rw [Nat.mod_one]
    rfl
  unfold RandomSource.draw
  simp [hstream, List.map_const']
  rfl

/-- A secret and a seed are drawn. -/
theorem exists_yields_encrypted (b : UInt8) :
    ∃ body t, Yields plan.encrypted (constant b 0) (body, some t) (constant b 48) := by
  obtain ⟨secret, hsecret⟩ : ∃ secret,
      Yields (Secret.generate : Random Error Key128) (constant b 0) secret (constant b 16) :=
    ⟨_, rfl⟩
  obtain ⟨t, hwrap⟩ := Sealed.exists_wrap secret (constant b 16)
  exact ⟨_, t, yields_encrypted_of_wrap rfl hsecret hwrap⟩

variable {b : UInt8} {sig : Signature}

theorem exists_yields_signedBy
    (hsign : Crypto.Ecdsa.sign? .sha256 .p256 1 plan.contentHash (List.replicate 32 b) = some sig) :
    ∃ t slot, encodeEcdsa sig <+: slot ∧
      Yields (plan.keys.mapM (Plan.signedBy plan.contentHash)) (constant b 48)
        [pair first t, pair second { tag := Tlv.ecdsa256Tag, data := slot }] (constant b 80) := by
  have hhash : plan.contentHash.length = EcCurve.p256.params.fieldSize := Crypto.length_sha256 _
  obtain ⟨slot, hslot, hsize, hencoded⟩ := @exists_yields_sign_ec _ _ _ _ .p256 1
    Crypto.Curve.p256.base _ _ (fitHash?_of_length hhash) (draw_constant b 48 32) hsign
  have hfirst : Yields (first.sign plan.contentHash) (constant b 48)
      (Crypto.Ed25519.sign (List.replicate 32 7) plan.contentHash) (constant b 48) :=
    yields_pure.mpr ⟨rfl, rfl⟩
  have hnone : Yields (([] : List SigningKey).mapM (Plan.signedBy plan.contentHash))
      (constant b 80) [] (constant b 80) := yields_pure.mpr ⟨rfl, rfl⟩
  exact ⟨_, slot, hencoded, yields_mapM_signedBy_cons rfl hfirst rfl
    (yields_mapM_signedBy_cons rfl hslot hsize hnone)⟩

/-- The length that the second signer is going to write, if one byte is drawn all the time. -/
def lengthFor (b : UInt8) : Option UInt8 :=
  (Crypto.Ecdsa.sign? .sha256 .p256 1 plan.contentHash (List.replicate 32 b)).bind fun sig =>
    (encodeEcdsa sig)[1]?

set_option maxRecDepth 100000 in
theorem lengthFor_eq : lengthFor 42 = some 70 ∧ lengthFor 7 = some 68 := by
  unfold lengthFor Plan.contentHash Image.contentHashOf
  rw [Crypto.Sha256.sha256_eq_digest, Crypto.HashFunction.sha256_eq]
  decide +kernel

theorem exists_image {n : UInt8} (h : lengthFor b = some n) :
    ∃ img, plan.build.eval (.cycle [b]) = .ok img ∧ encodedLength img = some n := by
  obtain ⟨sig, hsign, hlength⟩ := Option.bind_eq_some_iff.mp h
  obtain ⟨body, t, hencrypted⟩ := exists_yields_encrypted b
  obtain ⟨_, _, ⟨rest, rfl⟩, hsignatures⟩ := exists_yields_signedBy hsign
  have hkept : (encodeEcdsa sig ++ rest)[1]? = some n := by
    rw [List.getElem?_append_left (List.getElem?_eq_some_iff.mp hlength).1]
    exact hlength
  exact ⟨_, build_eq_ok (by decide) (by decide) hencrypted hsignatures nodup_keyHashes, hkept⟩

end Resealed

/-- Sealed with another secret and another seed, the image keeps its layout, although the ECDSA
signature in it has become two bytes shorter. -/
theorem alike_of_build_sealed :
    ∃ a b,
      (Resealed.plan.build.eval (.cycle [42]) = .ok a ∧
        Resealed.plan.build.eval (.cycle [7]) = .ok b) ∧
      (a.header = b.header ∧ a.pad = b.pad ∧ a.body.length = b.body.length ∧
        List.Forall₂ Alike a.tlvs b.tlvs ∧ a.offsets = b.offsets ∧ a.totalSize = b.totalSize ∧
        (Resealed.plan.wrapKey = none → a.body = b.body)) ∧
      Resealed.encodedLength a = some 70 ∧ Resealed.encodedLength b = some 68 := by
  obtain ⟨a, ha, hfirst⟩ := Resealed.exists_image Resealed.lengthFor_eq.1
  obtain ⟨b, hb, hsecond⟩ := Resealed.exists_image Resealed.lengthFor_eq.2
  exact ⟨a, b, ⟨ha, hb⟩, alike_of_build Resealed.plan (.cycle [42]) (.cycle [7]) a b ha hb,
    hfirst, hsecond⟩

end Firmware.Build
