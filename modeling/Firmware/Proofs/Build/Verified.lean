import Firmware.Proofs.Build.Outcome
import Firmware.Proofs.Crypto.Primality
import Firmware.Proofs.Crypto.Sha256

/-!
# Built images verify

`verify_build` : an image that could be built passes every check, provided that the keys accept
their own signatures.  Builder and checks know nothing of each other; what they share is the shape
of the TLV area.

The walk over the area finds the pairs that the builder put there and no others: the values before
and behind them are no key hashes, and a signature is none either.  A key hash then leads back to
the key that signed, since the builder refuses two keys with one hash; and so a list of signers in
any order is found to have signed from its first to its last place.
-/

namespace Firmware.Build

open Key (PublicKey SigningKey)
open Verify (PairAt PairsAccepted Accepts hasHash namedPlaces)

variable {p : Plan} {img : Image} {hash : Bytes} {keys : List SigningKey} {signatures : List Tlv}
  {wrapped : Option Tlv}

/-! ## The pairs in the area -/

theorem signs_of_pairAt_pairs (hsigned : List.Forall₂ (Signs hash) keys signatures)
    {rest : List Tlv} (hrest : ∀ t ∈ rest, t.tag ≠ Tlv.keyHashTag) {place : Nat} {a b : Tlv}
    (h : PairAt (pairs keys signatures ++ rest) place a b) :
    ∃ key ∈ keys, a.data = key.publicKey.keyHash ∧ Signs hash key b := by
  induction hsigned generalizing place with
  | nil => exact absurd h.isKeyHash (hrest a (List.mem_of_getElem? h.first))
  | @cons key t keys signatures hsigns _ ih =>
      match place with
      | 0 =>
          obtain rfl := Option.some.inj h.first
          obtain rfl := Option.some.inj h.second
          exact ⟨key, List.mem_cons_self, rfl, hsigns⟩
      | 1 =>
          obtain rfl := Option.some.inj h.first
          have htag := Tlv.tags_of_isSignature (isSignature_of_signatureTag hsigns.tag)
          exact absurd h.isKeyHash htag.1
      | place + 2 =>
          obtain ⟨key', hkey', hfound⟩ := ih ⟨h.first, h.second, h.isKeyHash, h.isSignature⟩
          exact ⟨key', List.mem_cons_of_mem _ hkey', hfound⟩

theorem exists_pairAt_pairs (hsigned : List.Forall₂ (Signs hash) keys signatures)
    (rest : List Tlv) {key : SigningKey} (hkey : key ∈ keys) :
    ∃ place a b, PairAt (pairs keys signatures ++ rest) place a b ∧
      a.data = key.publicKey.keyHash := by
  induction hsigned with
  | nil => cases hkey
  | @cons key' t keys signatures hsigns _ ih =>
      rcases List.mem_cons.mp hkey with rfl | hkey
      · exact ⟨0, _, t, ⟨rfl, rfl, rfl, isSignature_of_signatureTag hsigns.tag⟩, rfl⟩
      · obtain ⟨place, a, b, h, ha⟩ := ih hkey
        exact ⟨place + 2, a, b, ⟨h.first, h.second, h.isKeyHash, h.isSignature⟩, ha⟩

theorem Builds.tag_ne_of_mem_wrapped (h : Builds p img hash signatures wrapped) :
    ∀ t ∈ wrapped.toList, t.tag ≠ Tlv.keyHashTag := by
  intro t ht
  exact (Tlv.tags_of_isSecret (isSecret_of_encrypts h.encrypted t (Option.mem_toList.mp ht))).1

theorem signs_of_pairAt (h : Builds p img hash signatures wrapped) {place : Nat} {a b : Tlv}
    (hpair : PairAt img.tlvs place a b) :
    ∃ key ∈ p.keys, a.data = key.publicKey.keyHash ∧ Signs hash key b := by
  rw [h.tlvs] at hpair
  cases place with
  | zero =>
      obtain rfl := Option.some.inj hpair.first
      have hother : Tlv.sha256Tag ≠ Tlv.keyHashTag := by decide
      exact absurd hpair.isKeyHash hother
  | succ place =>
      exact signs_of_pairAt_pairs h.signed h.tag_ne_of_mem_wrapped (PairAt.cons_iff.mp hpair)

theorem exists_pairAt (h : Builds p img hash signatures wrapped) {key : SigningKey}
    (hkey : key ∈ p.keys) :
    ∃ place a b, PairAt img.tlvs place a b ∧ a.data = key.publicKey.keyHash := by
  obtain ⟨place, a, b, hpair, ha⟩ := exists_pairAt_pairs h.signed wrapped.toList hkey
  rw [h.tlvs]
  exact ⟨place + 1, a, b, PairAt.cons_iff.mpr hpair, ha⟩

/-! ## From key hashes to keys -/

/-- The hashes of the signers are pairwise distinct, since the builder checks its own result. -/
theorem Builds.nodup_keyHashes (h : Builds p img hash signatures wrapped) :
    (p.keys.map (·.publicKey.keyHash)).Nodup := by
  have hdistinct := Image.nodup_keyHashes h.structured
  rwa [h.tlvs, keyHashes_area h.signed (isSecret_of_encrypts h.encrypted)] at hdistinct

/-- Among the signers a hash belongs to one key. -/
theorem Builds.eq_of_keyHash_eq (h : Builds p img hash signatures wrapped) {a b : PublicKey}
    (ha : a ∈ p.keys.map (·.publicKey)) (hb : b ∈ p.keys.map (·.publicKey))
    (heq : a.keyHash = b.keyHash) : a = b := by
  obtain ⟨k, hk, rfl⟩ := List.mem_map.mp ha
  obtain ⟨k', hk', rfl⟩ := List.mem_map.mp hb
  exact congrArg _ (List.inj_on_of_nodup_map h.nodup_keyHashes hk hk' heq)

/-! ## The signatures -/

section Signers

variable {signers : List PublicKey}

theorem pairsAccepted_build (h : Builds p img hash signatures wrapped)
    (haccepts : ∀ key ∈ p.keys, key.AcceptsOwn)
    (hsigners : ∀ k ∈ signers, k ∈ p.keys.map (·.publicKey)) :
    PairsAccepted signers hash img.tlvs := by
  intro place a b hpair k hfound
  obtain ⟨key, hkey, ha, hsigns⟩ := signs_of_pairAt h hpair
  have hnamed : hasHash a.data k = true := List.find?_some hfound
  have hhash : k.keyHash = a.data := eq_of_beq hnamed
  have hmem := hsigners k (List.mem_of_find?_eq_some hfound)
  obtain rfl := h.eq_of_keyHash_eq hmem (List.mem_map_of_mem hkey) (hhash.trans ha)
  obtain ⟨_, _, hmade⟩ := hsigns.made
  exact ⟨(Key.signatureTag_publicKey key).trans hsigns.tag,
    Key.verify_of_sign (haccepts key hkey) hmade hsigns.size⟩

/-- Without repetitions, the first signer with the hash of a given one is that one. -/
theorem findIdx?_signers (h : Builds p img hash signatures wrapped) (hnodup : signers.Nodup)
    (hsigners : ∀ k ∈ signers, k ∈ p.keys.map (·.publicKey)) {i : Nat} (hi : i < signers.length) :
    signers.findIdx? (hasHash signers[i].keyHash) = some i := by
  rw [List.findIdx?_eq_some_iff_getElem]
  refine ⟨hi, beq_self_eq_true _, ?_⟩
  intro j hj hfound
  have hlt : j < signers.length := Nat.lt_trans hj hi
  have heq : signers[j] = signers[i] :=
    h.eq_of_keyHash_eq (hsigners _ (List.getElem_mem hlt)) (hsigners _ (List.getElem_mem hi))
      (eq_of_beq hfound)
  exact Nat.ne_of_lt hj (hnodup.getElem_inj_iff.mp heq)

theorem mem_namedPlaces_build (h : Builds p img hash signatures wrapped) (hnodup : signers.Nodup)
    (hsigners : ∀ k ∈ signers, k ∈ p.keys.map (·.publicKey)) (i : Nat) :
    i ∈ namedPlaces signers img.tlvs ↔ i < signers.length := by
  rw [Verify.mem_namedPlaces]
  constructor
  · rintro ⟨_, _, _, _, hfound⟩
    exact (List.findIdx?_eq_some_iff_getElem.mp hfound).1
  · intro hi
    obtain ⟨key, hkey, heq⟩ := List.mem_map.mp (hsigners _ (List.getElem_mem hi))
    obtain ⟨place, a, b, hpair, ha⟩ := exists_pairAt h hkey
    refine ⟨place, a, b, hpair, ?_⟩
    rw [ha, heq]
    exact findIdx?_signers h hnodup hsigners hi

end Signers

/-! ## The hash -/

theorem checkHash_plain (h : Builds p img hash signatures wrapped) (hplain : p.wrapKey = none)
    (key : Option Secret.UnwrapKey) : Verify.checkHash img p.initial key = .ok () := by
  have hflag : img.header.isEncrypted = false := by
    rw [h.isEncrypted_eq, hplain]
    rfl
  refine Verify.checkHash_eq_ok_iff.mpr ⟨img.body, .plain key hflag, ?_⟩
  rw [h.encrypted.body_eq hplain, ← h.covers]
  exact h.hash_eq

/-! ## All checks -/

/-- A built image has the TLV area that its plan asks for, breaks no rule of the structure, is
signed by any of its signers in any order, and, unless it is encrypted, carries its own hash. -/
theorem verify_build (p : Plan) (source : RandomSource) (img : Image)
    (haccepts : ∀ key ∈ p.keys, key.AcceptsOwn) (hbuild : p.build.eval source = .ok img) :
    (∃ hash signatures wrapped, img.tlvs = area hash p.keys signatures wrapped ∧
      List.Forall₂
        (fun key t => key.signatureTag = .ok t.tag ∧ t.data.length = key.signatureSize)
        p.keys signatures ∧
      (∀ t ∈ wrapped, Tlv.isSecret t.tag = true) ∧ wrapped.isSome = p.wrapKey.isSome) ∧
    Image.violations img.tlvs = [] ∧
    (∀ signers : List PublicKey, signers.Nodup → (∀ k ∈ signers, k ∈ p.keys.map (·.publicKey)) →
      Verify.checkSignatures img signers = .ok (List.range signers.length)) ∧
    (p.wrapKey = none → ∀ key, Verify.checkHash img p.initial key = .ok ()) := by
  obtain ⟨hash, signatures, wrapped, h⟩ := builds_of_build hbuild
  refine ⟨⟨hash, signatures, wrapped, h.tlvs, ?_, isSecret_of_encrypts h.encrypted,
    h.encrypted.isSome_eq⟩, h.structured, ?_, checkHash_plain h⟩
  · exact h.signed.imp fun _ _ hsigns => ⟨hsigns.tag, hsigns.size⟩
  · intro signers hnodup hsigners
    exact Verify.checkSignatures_eq_ok_iff.mpr ⟨hash, h.hash_eq,
      pairsAccepted_build h haccepts hsigners,
      Verify.ascending_eq_range (mem_namedPlaces_build h hnodup hsigners)⟩

/-! ## A released image

A plaintext image that two RSA keys of different sizes have signed, for which there are two types of
signatures.  Keys with prime factors sign every hash, so of what the build computes only the hashes
of the two keys are looked at.
-/

namespace Released

open Crypto.Rsa (primeKey longKey)

def plan : Plan where
  body := [1, 2, 3]
  version := ⟨1, 0, 0, 0⟩
  keys := [.rsa primeKey, .rsa longKey]

set_option maxRecDepth 100000 in
theorem nodup_keyHashes : plan.keyHashes.Nodup := by
  unfold Plan.keyHashes Key.PublicKey.keyHash
  simp only [Crypto.Sha256.sha256_eq_digest]
  decide +kernel

theorem exists_allSign (s : RandomSource) : ∃ s', AllSign plan.contentHash plan.keys s s' := by
  have hhash : plan.contentHash.length = Crypto.Rsa.hashSize := Crypto.length_sha256 _
  have hshort := Key.signatureTag_rsa_eq_ok_iff.mpr (.inl ⟨Crypto.Rsa.size_primeKey, rfl⟩)
  have hlong := Key.signatureTag_rsa_eq_ok_iff.mpr (.inr ⟨Crypto.Rsa.size_longKey, rfl⟩)
  obtain ⟨s₁, hfirst⟩ := exists_allSign_cons Crypto.Rsa.hasPrimes_primeKey hshort hhash s
  obtain ⟨s', hsecond⟩ := exists_allSign_cons Crypto.Rsa.hasPrimes_longKey hlong hhash s₁
  exact ⟨s', hfirst _ _ (hsecond _ _ .nil)⟩

theorem exists_image : ∃ img, plan.build.eval (.cycle [42]) = .ok img := by
  obtain ⟨_, hsign⟩ := exists_allSign (.cycle [42])
  exact exists_build (by decide) (by decide) (.plain rfl) hsign nodup_keyHashes

theorem acceptsOwn : ∀ key ∈ plan.keys, key.AcceptsOwn := by
  intro key hkey
  rcases List.mem_pair.mp hkey with rfl | rfl
  · exact Key.acceptsOwn_rsa Crypto.Rsa.hasPrimes_primeKey.isValid
  · exact Key.acceptsOwn_rsa Crypto.Rsa.hasPrimes_longKey.isValid

/-- The signers, from the last to the first. -/
def signers : List PublicKey := (plan.keys.map (·.publicKey)).reverse

theorem nodup_signers : signers.Nodup := by
  have hhashes : ((plan.keys.map (·.publicKey)).map (·.keyHash)).Nodup := by
    rw [List.map_map]
    exact nodup_keyHashes
  exact List.nodup_reverse.mpr (.of_map _ hhashes)

end Released

/-- The released image verifies, also with its signers in the other order. -/
theorem verify_build_released :
    ∃ img,
      ((∀ key ∈ Released.plan.keys, key.AcceptsOwn) ∧
        Released.plan.build.eval (.cycle [42]) = .ok img) ∧
      ((∃ hash signatures wrapped, img.tlvs = area hash Released.plan.keys signatures wrapped ∧
        List.Forall₂
          (fun key t => key.signatureTag = .ok t.tag ∧ t.data.length = key.signatureSize)
          Released.plan.keys signatures ∧
        (∀ t ∈ wrapped, Tlv.isSecret t.tag = true) ∧
          wrapped.isSome = Released.plan.wrapKey.isSome) ∧
      Image.violations img.tlvs = [] ∧
      (∀ signers : List PublicKey, signers.Nodup →
        (∀ k ∈ signers, k ∈ Released.plan.keys.map (·.publicKey)) →
        Verify.checkSignatures img signers = .ok (List.range signers.length)) ∧
      (Released.plan.wrapKey = none →
        ∀ key, Verify.checkHash img Released.plan.initial key = .ok ())) ∧
      Verify.checkSignatures img Released.signers = .ok [0, 1] := by
  obtain ⟨img, hbuild⟩ := Released.exists_image
  have hverify := verify_build Released.plan (.cycle [42]) img Released.acceptsOwn hbuild
  have hother : Verify.checkSignatures img Released.signers = .ok [0, 1] :=
    hverify.2.2.1 Released.signers Released.nodup_signers fun _ => List.mem_reverse.mp
  exact ⟨img, ⟨Released.acceptsOwn, hbuild⟩, hverify, hother⟩

end Firmware.Build
