import Firmware.Proofs.Build.Outcome
import Firmware.Proofs.Crypto.Primality
import Firmware.Proofs.Image.Decrypt

/-!
# Encrypted images

`decrypt_build` : whoever has the key that belongs to the one a plan wraps its secret with gets the
plan's body back from the built image, can check its hash, and decrypts it to the image in plaintext
that differs in nothing but the body, the encryption flag and the wrapped secret.

The hash is taken of the plaintext under a header that says *encrypted* already, so it holds for the
encrypted image with the key, and without the key there is nothing to compare.
-/

namespace Firmware.Build

variable {p : Plan} {img : Image} {hash data : Bytes} {signatures : List Tlv}
  {wrapped : Option Tlv} {dk : Secret.UnwrapKey}

/-! ## The flag and the secret -/

theorem Builds.isEncrypted (h : Builds p img hash signatures wrapped)
    (hkey : p.wrapKey = some data) : img.header.isEncrypted = true := by
  rw [h.isEncrypted_eq, hkey]
  rfl

/-- The values before the wrapped secret are kept. -/
theorem filter_not_isSecret_area {keys : List Key.SigningKey}
    (hsigned : List.Forall₂ (Signs hash) keys signatures) {t : Tlv}
    (ht : Tlv.isSecret t.tag = true) :
    (area hash keys signatures (some t)).filter (fun t => !Tlv.isSecret t.tag) =
      (area hash keys signatures (some t)).dropLast := by
  have hsplit : area hash keys signatures (some t) = area hash keys signatures none ++ [t] := by
    simp [area]
  have hnone : (area hash keys signatures none).filter (fun t => Tlv.isSecret t.tag) = [] :=
    filter_isSecret_area hsigned fun _ h => nomatch h
  have hkept : (area hash keys signatures none).filter (fun t => !Tlv.isSecret t.tag) =
      area hash keys signatures none := by
    rw [List.filter_eq_self]
    intro t' ht'
    rw [List.filter_eq_nil_iff] at hnone
    rw [Bool.not_eq_true']
    exact Bool.eq_false_iff.mpr (hnone t' ht')
  rw [hsplit, List.filter_append, hkept, List.dropLast_concat, List.filter_cons_of_neg,
    List.filter_nil, List.append_nil]
  rw [ht]
  decide

theorem Builds.wrappedSecret_eq {t : Tlv} (h : Builds p img hash signatures (some t)) :
    img.wrappedSecret = .ok t := by
  have hfilter := filter_isSecret_area h.signed (isSecret_of_encrypts h.encrypted)
  unfold Image.wrappedSecret
  rw [h.tlvs, hfilter]
  rfl

/-! ## Decryption -/

/-- The secret comes out of the image, and takes the encrypted body back to the plaintext. -/
theorem Builds.decryptedBody_eq (h : Builds p img hash signatures wrapped)
    (hkey : p.wrapKey = some data) (hmatch : Secret.WrapKey.parse data = .ok dk.wrapKey)
    (hrestores : dk.Restores) : img.decryptedBody dk = .ok p.body := by
  obtain ⟨secret, t, _, _, rfl, hbody, hwrap⟩ := h.encrypted.exists_secret hkey hmatch
  have hunwrap := Secret.unwrap_of_wrap hrestores hwrap
  refine Image.decryptedBody_eq_ok_iff.mpr
    ⟨h.isEncrypted hkey, t, secret, h.wrappedSecret_eq, hunwrap, ?_⟩
  rw [hbody, Secret.crypt_crypt]

/-- Encryption is undone by the matching key, and only the key makes the hash checkable. -/
theorem decrypt_build (p : Plan) (source : RandomSource) (data : Bytes) (img : Image)
    (dk : Secret.UnwrapKey) (hkey : p.wrapKey = some data)
    (hmatch : Secret.WrapKey.parse data = .ok dk.wrapKey) (hrestores : dk.Restores)
    (hbuild : p.build.eval source = .ok img) :
    img.decryptedBody dk = .ok p.body ∧
      Verify.checkHash img p.initial (some dk) = .ok () ∧
      Verify.checkHash img p.initial none = .error .encryptedNoKey ∧
      img.decrypt dk = .ok
        { header := { img.header with flags := img.header.flags &&& ~~~Image.flagEncrypted }
          pad := img.pad
          body := p.body
          tlvs := img.tlvs.dropLast } := by
  obtain ⟨hash, signatures, wrapped, h⟩ := builds_of_build hbuild
  have henc := h.isEncrypted hkey
  have hbody := h.decryptedBody_eq hkey hmatch hrestores
  obtain ⟨_, t, _, _, rfl, -, hwrap⟩ := h.encrypted.exists_secret hkey hmatch
  refine ⟨hbody, ?_, ?_, ?_⟩
  · refine Verify.checkHash_eq_ok_iff.mpr ⟨p.body, .decrypted dk p.body henc hbody, ?_⟩
    rw [← h.covers]
    exact h.hash_eq
  · unfold Verify.checkHash Verify.plainBody
    rw [h.hash_eq, henc]
    rfl
  · have hkept := filter_not_isSecret_area h.signed (Secret.isSecret_of_wrap hwrap)
    rw [← h.tlvs] at hkept
    unfold Image.decrypt
    refine bind_eq_ok_iff.mpr ⟨p.body, hbody, ?_⟩
    rw [← hkept]
    rfl

/-! ## A sealed image

A body that does not fill its last block, signed, and wrapped with an RSA key with prime factors.
That it can be built is seen without computing a single cipher block, since no check looks into the
body or at the secret.
-/

namespace Sealed

open Crypto.Rsa (primeKey)

/-- The public half of the key in a file. -/
def keyFile : Bytes := (Key.PublicKeyInfo.ofKey (.rsa primeKey.toPublic)).toBytes

def plan : Plan where
  body := List.replicate 20 7
  version := ⟨1, 0, 0, 0⟩
  keys := [.ed25519 (List.replicate 32 7)]
  wrapKey := some keyFile
  initial := some [1, 2, 3]

set_option maxRecDepth 100000 in
theorem parse_keyFile : Secret.WrapKey.parse keyFile = .ok (.rsa primeKey.toPublic) := by
  decide +kernel

theorem restores : (Secret.UnwrapKey.rsa primeKey).Restores :=
  Secret.restores_rsa Crypto.Rsa.hasPrimes_primeKey

theorem exists_wrap (secret : Key128) (s : RandomSource) :
    ∃ t, Yields (Secret.wrap keyFile secret) s t (s.draw Crypto.Rsa.hashSize).2 := by
  have hroom : 82 ≤ primeKey.toPublic.size := by
    have hsize : primeKey.toPublic.size = 256 := Crypto.Rsa.size_primeKey
    rw [hsize]
    decide
  obtain ⟨t, ht⟩ := Secret.exists_wrap_rsa hroom secret s
  exact ⟨t, Secret.yields_wrap_of_parse parse_keyFile ht⟩

theorem exists_image : ∃ img, plan.build.eval (.cycle [42]) = .ok img := by
  obtain ⟨secret, s₁, hsecret⟩ :
      ∃ secret s₁, Yields (Secret.generate : Random Error Key128) (.cycle [42]) secret s₁ :=
    ⟨_, _, rfl⟩
  obtain ⟨t, hwrap⟩ := exists_wrap secret s₁
  obtain ⟨s, hwraps⟩ : ∃ s, Wraps plan (.cycle [42]) s := ⟨_, .wrapped rfl hsecret hwrap⟩
  have hsign : Yields (Key.SigningKey.sign (.ed25519 (List.replicate 32 7)) plan.contentHash) s
      (Crypto.Ed25519.sign (List.replicate 32 7) plan.contentHash) s := yields_pure.mpr ⟨rfl, rfl⟩
  exact exists_build (by decide) (by decide) hwraps (.cons rfl hsign rfl .nil)
    (List.nodup_singleton _)

end Sealed

open Crypto.Rsa (primeKey) in
/-- The private half of the key opens the sealed image. -/
theorem decrypt_build_sealed :
    ∃ img,
      (Sealed.plan.wrapKey = some Sealed.keyFile ∧
        Secret.WrapKey.parse Sealed.keyFile = .ok (Secret.UnwrapKey.rsa primeKey).wrapKey ∧
        (Secret.UnwrapKey.rsa primeKey).Restores ∧
        Sealed.plan.build.eval (.cycle [42]) = .ok img) ∧
      img.decryptedBody (.rsa primeKey) = .ok Sealed.plan.body ∧
        Verify.checkHash img Sealed.plan.initial (some (.rsa primeKey)) = .ok () ∧
        Verify.checkHash img Sealed.plan.initial none = .error .encryptedNoKey ∧
        img.decrypt (.rsa primeKey) = .ok
          { header := { img.header with flags := img.header.flags &&& ~~~Image.flagEncrypted }
            pad := img.pad
            body := Sealed.plan.body
            tlvs := img.tlvs.dropLast } := by
  obtain ⟨img, hbuild⟩ := Sealed.exists_image
  exact ⟨img, ⟨rfl, Sealed.parse_keyFile, Sealed.restores, hbuild⟩,
    decrypt_build Sealed.plan (.cycle [42]) Sealed.keyFile img (.rsa primeKey) rfl
      Sealed.parse_keyFile Sealed.restores hbuild⟩

end Firmware.Build
