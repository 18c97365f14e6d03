import Firmware.Proofs.Crypto.Sha256
import Firmware.Proofs.Verify

/-!
# Which signers are found

The check of the signatures looks every key hash up among the given keys and goes by the first key
that has it.  `mem_places_iff` says which keys it finds in the end: those that have signed and have
no key with the same hash before them.  So the result names every key that has signed exactly when
no such key stands behind another one with its hash.

A key that is given twice is found once only (`repeated_signer_left_out`), although both times it is
a key with a valid signature.
-/

namespace Firmware.Verify

open Key (PublicKey)

/-- At a place of an area stands the hash of a key and right behind it a signature of the key's type
that the key accepts. -/
structure SignsAt (key : PublicKey) (hash : Bytes) (tlvs : List Tlv) (place : Nat) : Prop where
  keyHash : ∃ a, tlvs[place]? = some a ∧ a.tag = Tlv.keyHashTag ∧ a.data = key.keyHash
  signature : ∃ b, tlvs[place + 1]? = some b ∧ Accepts key hash b

theorem signedBy_iff_exists_signsAt {key : PublicKey} {hash : Bytes} {tlvs : List Tlv} :
    SignedBy key hash tlvs ↔ ∃ place, SignsAt key hash tlvs place := by
  constructor
  · rintro ⟨place, a, b, hpair, hdata, haccepts⟩
    exact ⟨place, ⟨a, hpair.first, hpair.isKeyHash, hdata⟩, b, hpair.second, haccepts⟩
  · rintro ⟨place, ⟨a, ha, htag, hdata⟩, b, hb, haccepts⟩
    exact ⟨place, a, b, ⟨ha, hb, htag, isSignature_of_signatureTag haccepts.tag⟩, hdata, haccepts⟩

/-- No key before a place has a given hash. -/
def FirstWith (keys : List PublicKey) (i : Nat) (hash : Bytes) : Prop :=
  ∀ j < i, ∀ other, keys[j]? = some other → other.keyHash ≠ hash

theorem findIdx?_hasHash_eq_some_iff {keys : List PublicKey} {hash : Bytes} {i : Nat} :
    keys.findIdx? (hasHash hash) = some i ↔
      ∃ key, keys[i]? = some key ∧ key.keyHash = hash ∧ FirstWith keys i hash := by
  rw [List.findIdx?_eq_some_iff_getElem]
  constructor
  · rintro ⟨hi, hhash, hbefore⟩
    refine ⟨keys[i], List.getElem?_eq_getElem hi, eq_of_beq hhash, fun j hj other hother heq => ?_⟩
    obtain ⟨_, rfl⟩ := List.getElem?_eq_some_iff.mp hother
    exact hbefore j hj (beq_iff_eq.mpr heq)
  · rintro ⟨key, hkey, hhash, hfirst⟩
    obtain ⟨hi, rfl⟩ := List.getElem?_eq_some_iff.mp hkey
    refine ⟨hi, beq_iff_eq.mpr hhash, fun j hj hfound => ?_⟩
    exact hfirst j hj _ (List.getElem?_eq_getElem (Nat.lt_trans hj hi)) (eq_of_beq hfound)

/-- Where all pairs are accepted, the keys that pairs name are those that have signed and come first
with their hash. -/
theorem mem_namedPlaces_iff {keys : List PublicKey} {hash : Bytes} {tlvs : List Tlv}
    (haccepted : PairsAccepted keys hash tlvs) {i : Nat} :
    i ∈ namedPlaces keys tlvs ↔
      ∃ key, keys[i]? = some key ∧ (∃ place, SignsAt key hash tlvs place) ∧
        FirstWith keys i key.keyHash := by
  constructor
  · intro hi
    obtain ⟨_, a, _, -, hfound⟩ := mem_namedPlaces.mp hi
    obtain ⟨key, hkey, hhash, hfirst⟩ := findIdx?_hasHash_eq_some_iff.mp hfound
    have hsigned := signedBy_of_mem_namedPlaces haccepted hkey hi
    exact ⟨key, hkey, signedBy_iff_exists_signsAt.mp hsigned, hhash.symm ▸ hfirst⟩
  · rintro ⟨key, hkey, hsigned, hfirst⟩
    obtain ⟨place, a, b, hpair, hdata, -⟩ := signedBy_iff_exists_signsAt.mpr hsigned
    refine mem_namedPlaces.mpr ⟨place, a, b, hpair, findIdx?_hasHash_eq_some_iff.mpr ?_⟩
    exact ⟨key, hkey, hdata.symm, hdata.symm ▸ hfirst⟩

/-! ## A key that is given twice -/

namespace Repeated

def signer : Key.SigningKey := .ed25519 (List.replicate 32 7)

def key : PublicKey := signer.publicKey

def header : Image.Header :=
  { headerSize := 32, bodySize := 3, flags := 0, version := ⟨1, 0, 0, 0⟩ }

def hash : Bytes := Image.contentHashOf none header [] [1, 2, 3]

def image : Image where
  header := header
  pad := []
  body := [1, 2, 3]
  tlvs :=
    [⟨Tlv.sha256Tag, 0, hash⟩, ⟨Tlv.keyHashTag, 0, key.keyHash⟩,
      ⟨Tlv.ed25519Tag, 0, Crypto.Ed25519.sign (List.replicate 32 7) hash⟩]

set_option maxRecDepth 100000 in
theorem checkSignatures_image : checkSignatures image [key, key] = .ok [0] := by
  unfold image hash Image.contentHashOf checkSignatures named Key.PublicKey.keyHash
  simp only [Crypto.Sha256.sha256_eq_digest]
  decide +kernel

theorem hash_image : image.hash = .ok hash :=
  hash_eq_ok_iff.mpr ⟨⟨Tlv.sha256Tag, 0, hash⟩, rfl, rfl, Crypto.length_sha256 _⟩

theorem exists_signsAt_image : ∃ place, SignsAt key hash image.tlvs place := by
  obtain ⟨_, hhash, haccepted, hplaces⟩ := checkSignatures_eq_ok_iff.mp checkSignatures_image
  obtain rfl := Except.ok.inj (hash_image.symm.trans hhash)
  have hfirst : 0 ∈ namedPlaces [key, key] image.tlvs :=
    mem_ascending.mp (hplaces.symm ▸ List.mem_singleton_self 0)
  obtain ⟨_, hkey, hsigned, -⟩ := (mem_namedPlaces_iff haccepted).mp hfirst
  obtain rfl := Option.some.inj hkey
  exact hsigned

end Repeated

/-- The check finds the keys that have signed, except those behind another key with their hash; so
it finds all of them exactly when there are no such keys. -/
theorem mem_places_iff {img : Image} {keys : List PublicKey} {places : List Nat} {hash : Bytes}
    (h : checkSignatures img keys = .ok places) (hhash : img.hash = .ok hash) :
    (∀ i, i ∈ places ↔
      ∃ key, keys[i]? = some key ∧ (∃ place, SignsAt key hash img.tlvs place) ∧
        FirstWith keys i key.keyHash) ∧
    ((∀ i key, keys[i]? = some key → (∃ place, SignsAt key hash img.tlvs place) → i ∈ places) ↔
      ∀ i key, keys[i]? = some key → (∃ place, SignsAt key hash img.tlvs place) →
        FirstWith keys i key.keyHash) := by
  obtain ⟨_, hhash', haccepted, rfl⟩ := checkSignatures_eq_ok_iff.mp h
  obtain rfl := Except.ok.inj (hhash.symm.trans hhash')
  have hmem : ∀ i, i ∈ ascending (namedPlaces keys img.tlvs) ↔
      ∃ key, keys[i]? = some key ∧ (∃ place, SignsAt key hash img.tlvs place) ∧
        FirstWith keys i key.keyHash := by
    intro i
    rw [mem_ascending, mem_namedPlaces_iff haccepted]
  refine ⟨hmem, ?_⟩
  constructor
  · intro hall i key hkey hsigned
    obtain ⟨key', hkey', -, hfirst⟩ := (hmem i).mp (hall i key hkey hsigned)
    obtain rfl := Option.some.inj (hkey.symm.trans hkey')
    exact hfirst
  · intro hall i key hkey hsigned
    exact (hmem i).mpr ⟨key, hkey, hsigned, hall i key hkey hsigned⟩

theorem mem_places_repeated :
    checkSignatures Repeated.image [Repeated.key, Repeated.key] = .ok [0] ∧
      Repeated.image.hash = .ok Repeated.hash ∧
      ((∀ i, i ∈ [0] ↔
        ∃ key, [Repeated.key, Repeated.key][i]? = some key ∧
          (∃ place, SignsAt key Repeated.hash Repeated.image.tlvs place) ∧
          FirstWith [Repeated.key, Repeated.key] i key.keyHash) ∧
      ((∀ i key, [Repeated.key, Repeated.key][i]? = some key →
          (∃ place, SignsAt key Repeated.hash Repeated.image.tlvs place) → i ∈ [0]) ↔
        ∀ i key, [Repeated.key, Repeated.key][i]? = some key →
          (∃ place, SignsAt key Repeated.hash Repeated.image.tlvs place) →
          FirstWith [Repeated.key, Repeated.key] i key.keyHash)) :=
  ⟨Repeated.checkSignatures_image, Repeated.hash_image,
    mem_places_iff Repeated.checkSignatures_image Repeated.hash_image⟩

/-- The second of two equal keys is not found, though it stands for a valid signature. -/
theorem repeated_signer_left_out :
    checkSignatures Repeated.image [Repeated.key, Repeated.key] = .ok [0] ∧
      Repeated.image.hash = .ok Repeated.hash ∧
      [Repeated.key, Repeated.key][1]? = some Repeated.key ∧
      (∃ place, SignsAt Repeated.key Repeated.hash Repeated.image.tlvs place) ∧ 1 ∉ [0] :=
  ⟨Repeated.checkSignatures_image, Repeated.hash_image, rfl, Repeated.exists_signsAt_image,
    by decide⟩

end Firmware.Verify
