import Firmware.Command.Images
import Firmware.Proofs.Command.Session
import Firmware.Proofs.Crypto.Sha256
import Firmware.Proofs.Image.Decrypt
import Firmware.Proofs.Image.Format
import Firmware.Proofs.Secret.Kind
import Firmware.Proofs.Verify

/-!
# The verdict of `image verify`

`verifyImage_sound` : when the command succeeds on a file of the current format, the image in that
file has a sound structure, every given key has signed its hash, no pair that names a given key is
invalid, and the hash is the digest of the plaintext, unless the image is encrypted and no
decryption key was asked for.  What the command line stands for is said by `Verification.Reads`.

The verdict comes about in five steps, and each may stop the command: the input is read, then the
structure, the hash and the signatures are checked, and at last the keys without a signature are
counted.  The first section says what each step means when it does *not* stop.  Nothing is assumed
about the keys: two of them may have one hash, and then the second one can never be found, which the
last step notices.
-/

namespace Firmware.Command

open Verify (PlainBody PairsAccepted SignedBy)

variable {w w' : Workspace}

/-! ## The steps -/

theorem yields_hexArgument {text : Option String} {initial : Option Bytes} :
    Yields (hexArgument text : InMemory _) w initial w' ↔
      text.mapM Hex.decode? = some initial ∧ w = w' := by
  cases text with
  | none => simp only [hexArgument, yields_pure, Option.mapM_none, Option.pure_def,
      Option.some.injEq]
  | some text =>
      simp only [hexArgument, yields_bind, yields_demand, yields_pure, Option.mapM_some,
        Option.map_eq_map, Option.map_eq_some_iff]
      constructor
      · rintro ⟨bytes, _, ⟨hdecode, rfl⟩, rfl, rfl⟩
        exact ⟨⟨bytes, hdecode, rfl⟩, rfl⟩
      · rintro ⟨⟨bytes, hdecode, rfl⟩, rfl⟩
        exact ⟨bytes, w, ⟨hdecode, rfl⟩, rfl, rfl⟩

/-- The structure is passed only without a breach, and then nothing is printed. -/
theorem yields_verifyStructure {img : Image} :
    Yields (verifyStructure img : InMemory Unit) w () w' ↔
      Image.violations img.tlvs = [] ∧ w = w' := by
  unfold verifyStructure
  cases hviolations : Image.violations img.tlvs with
  | nil =>
      constructor
      · intro h
        obtain ⟨_, _, hwarn, h⟩ := yields_bind.mp h
        exact ⟨rfl, (yields_pure.mp hwarn).2.trans (yields_pure.mp h).2⟩
      · rintro ⟨-, rfl⟩
        exact yields_bind.mpr ⟨(), w, yields_pure.mpr ⟨rfl, rfl⟩, yields_pure.mpr ⟨rfl, rfl⟩⟩
  | cons v vs =>
      constructor
      · intro h
        obtain ⟨_, _, _, h⟩ := yields_bind.mp h
        exact absurd h not_yields_throw
      · rintro ⟨h, -⟩
        cases h

/-- The hash is passed over for an encrypted image without a key, and checked for every other. -/
theorem exists_yields_verifyHash {img : Image} {initial : Option Bytes}
    {key : Option Secret.UnwrapKey} :
    (∃ w', Yields (verifyHash img initial key : InMemory Unit) w () w') ↔
      (¬(img.header.isEncrypted = true ∧ key = none) →
        Verify.checkHash img initial key = .ok ()) := by
  unfold verifyHash
  split
  · rename_i hskip
    rw [Bool.and_eq_true, Option.isNone_iff_eq_none] at hskip
    exact ⟨fun _ hreach => absurd hskip hreach, fun _ => ⟨_, rfl⟩⟩
  · rename_i hreach
    rw [Bool.and_eq_true, Option.isNone_iff_eq_none] at hreach
    constructor
    · rintro ⟨w', h⟩ -
      obtain ⟨_, _, hcheck, -⟩ := yields_bind.mp h
      exact (yields_attempt.mp hcheck).1
    · intro hcheck
      exact ⟨_, yields_bind.mpr ⟨(), w, yields_attempt.mpr ⟨hcheck hreach, rfl⟩, rfl⟩⟩

theorem missingSigners_eq_nil_iff {paths : List String} {places : List Nat} :
    missingSigners paths places = [] ↔ ∀ i < paths.length, i ∈ places := by
  unfold missingSigners
  rw [List.map_eq_nil_iff, List.filter_eq_nil_iff]
  constructor
  · intro h i hi
    have hmem : (paths[i], i) ∈ paths.zipIdx := List.mk_mem_zipIdx_iff_getElem?.mpr
      (List.getElem?_eq_getElem hi)
    have hkept := h _ hmem
    simpa using hkept
  · rintro h ⟨path, i⟩ hmem
    have hi := (List.getElem?_eq_some_iff.mp (List.mk_mem_zipIdx_iff_getElem?.mp hmem)).1
    simpa using h i hi

/-- The signatures are passed only if each of the keys is found to have signed. -/
theorem exists_yields_verifySignatures {img : Image} {keys : List Key.PublicKey}
    {paths : List String} :
    (∃ w', Yields (verifySignatures img keys paths : InMemory Unit) w () w') ↔
      ∃ places, Verify.checkSignatures img keys = .ok places ∧ ∀ i < paths.length, i ∈ places := by
  simp only [verifySignatures, yields_bind, yields_attempt, ← missingSigners_eq_nil_iff]
  constructor
  · rintro ⟨w', places, _, ⟨hcheck, rfl⟩, h⟩
    refine ⟨places, hcheck, ?_⟩
    cases hmissing : missingSigners paths places with
    | nil => rfl
    | cons path missing =>
        rw [hmissing] at h
        exact absurd h not_yields_throw
  · rintro ⟨places, hcheck, hmissing⟩
    refine ⟨?printed, places, w, ⟨hcheck, rfl⟩, ?passed⟩
    case passed =>
      rw [hmissing]
      rfl

/-! ## The whole command -/

/-- What the command line of a verification stands for in a workspace. -/
structure Verification.Reads (v : Verification) (w : Workspace) (initial : Option Bytes)
    (keys : List Key.PublicKey) (key : Option Secret.UnwrapKey) : Prop where
  initial : v.initial.mapM Hex.decode? = some initial
  keys : List.Forall₂ (HoldsPublicKey w) v.keys keys
  /-- A decryption key that is asked for is never passed over. -/
  absent : key = none ↔ v.unwrap = .none
  key : v.unwrap.Reads w v.passphrase key

/-- The success of the command on a file of the current format, step by step. -/
theorem exists_yields_verifyImage {v : Verification} {data : Bytes}
    (hload : w.load? v.input = some data) (hcurrent : isLegacy data = false) :
    (∃ w', Yields (verifyImage v : InMemory Unit) w () w') ↔
      ∃ initial keys key img, v.Reads w initial keys key ∧ Image.parse data = .ok img ∧
        Image.violations img.tlvs = [] ∧
        (¬(img.header.isEncrypted = true ∧ key = none) →
          Verify.checkHash img initial key = .ok ()) ∧
        ∃ places, Verify.checkSignatures img keys = .ok places ∧
          ∀ i < v.keys.length, i ∈ places := by
  constructor
  · rintro ⟨w', h⟩
    unfold verifyImage at h
    obtain ⟨_, _, hrun, h⟩ := yields_bind.mp h
    obtain ⟨hdata, rfl⟩ := yields_content.mp hrun
    obtain rfl := Option.some.inj (hload.symm.trans hdata)
    obtain ⟨initial, _, hrun, h⟩ := yields_bind.mp h
    obtain ⟨hinitial, rfl⟩ := yields_hexArgument.mp hrun
    obtain ⟨keys, _, hrun, h⟩ := yields_bind.mp h
    obtain ⟨hkeys, rfl⟩ := (yields_mapM_of_reads fun _ _ _ _ => yields_publicKey).mp hrun
    rw [hcurrent] at h
    obtain ⟨img, _, hrun, h⟩ := yields_bind.mp h
    obtain ⟨hparse, rfl⟩ := yields_attempt.mp hrun
    obtain ⟨_, _, hrun, h⟩ := yields_bind.mp h
    obtain ⟨hstructure, rfl⟩ := yields_verifyStructure.mp hrun
    obtain ⟨key, _, hrun, h⟩ := yields_bind.mp h
    obtain ⟨hkey, rfl⟩ := yields_unwrapKey.mp hrun
    obtain ⟨_, _, hhash, hsignatures⟩ := yields_bind.mp h
    exact ⟨initial, keys, key, img, ⟨hinitial, hkeys, hkey.eq_none_iff, hkey⟩, hparse, hstructure,
      exists_yields_verifyHash.mp ⟨_, hhash⟩, exists_yields_verifySignatures.mp ⟨_, hsignatures⟩⟩
  · rintro ⟨initial, keys, key, img, hreads, hparse, hstructure, hcheck, hplaces⟩
    obtain ⟨w₁, hhash⟩ := (exists_yields_verifyHash (w := w)).mpr hcheck
    obtain ⟨w₂, hsignatures⟩ := (exists_yields_verifySignatures (w := w₁)).mpr hplaces
    have hkeys := (yields_mapM_of_reads fun _ _ _ _ => yields_publicKey).mpr ⟨hreads.keys, rfl⟩
    refine ⟨w₂, ?_⟩
    unfold verifyImage
    refine yields_bind.mpr ⟨data, w, yields_content.mpr ⟨hload, rfl⟩, ?_⟩
    refine yields_bind.mpr ⟨initial, w, yields_hexArgument.mpr ⟨hreads.initial, rfl⟩, ?_⟩
    refine yields_bind.mpr ⟨keys, w, hkeys, ?_⟩
    rw [hcurrent]
    refine yields_bind.mpr ⟨img, w, yields_attempt.mpr ⟨hparse, rfl⟩, ?_⟩
    refine yields_bind.mpr ⟨(), w, yields_verifyStructure.mpr ⟨hstructure, rfl⟩, ?_⟩
    refine yields_bind.mpr ⟨key, w, yields_unwrapKey.mpr ⟨hreads.key, rfl⟩, ?_⟩
    exact yields_bind.mpr ⟨(), w₁, hhash, hsignatures⟩

/-- What a verification that succeeds vouches for, given the file, what its options stand for, the
image in the file and the value with the content hash. -/
structure Vouched (data : Bytes) (initial : Option Bytes) (keys : List Key.PublicKey)
    (key : Option Secret.UnwrapKey) (img : Image) (t : Tlv) : Prop where
  parsed : Image.parse data = .ok img
  structured : Image.violations img.tlvs = []
  unique : img.tlvs.filter (·.tag = Tlv.sha256Tag) = [t]
  signed : ∀ k ∈ keys, SignedBy k t.data img.tlvs
  accepted : PairsAccepted keys t.data img.tlvs
  /-- The plaintext is out of reach in one case only. -/
  hashed : ¬(img.header.isEncrypted = true ∧ key = none) →
    ∃ body, PlainBody img key body ∧
      t.data = Crypto.sha256 (initial.getD [] ++ img.header.toBytes ++ img.pad ++ body)

/-- A successful verification vouches for the image: its structure is sound, its one content hash is
signed by every given key, no signature that names a given key is wrong, and the hash is that of
the plaintext wherever the plaintext is known. -/
theorem verifyImage_sound (v : Verification) (w w' : Workspace) (data : Bytes)
    (hload : w.load? v.input = some data) (hcurrent : isLegacy data = false)
    (h : Yields (verifyImage v : InMemory Unit) w () w') :
    ∃ initial keys key img t,
      v.Reads w initial keys key ∧ Vouched data initial keys key img t := by
  obtain ⟨initial, keys, key, img, hreads, hparse, hstructure, hcheck, places, hsignatures,
    hplaces⟩ := (exists_yields_verifyImage hload hcurrent).mp ⟨w', h⟩
  obtain ⟨hash, hhash, haccepted, rfl⟩ := Verify.checkSignatures_eq_ok_iff.mp hsignatures
  obtain ⟨t, hunique, rfl, -⟩ := Verify.hash_eq_ok_iff.mp hhash
  refine ⟨initial, keys, key, img, t, hreads, hparse, hstructure, hunique, ?_, haccepted, ?_⟩
  · intro k hk
    obtain ⟨i, hi⟩ := List.getElem?_of_mem hk
    have hlt : i < v.keys.length := by
      rw [hreads.keys.length_eq]
      exact (List.getElem?_eq_some_iff.mp hi).1
    exact Verify.signedBy_of_mem_namedPlaces haccepted hi
      (Verify.mem_ascending.mp (hplaces i hlt))
  · intro hreach
    obtain ⟨body, hbody, hexpected⟩ := Verify.checkHash_eq_ok_iff.mp (hcheck hreach)
    exact ⟨body, hbody, Except.ok.inj (hhash.symm.trans hexpected)⟩

/-! ## An image with two signers

A small encrypted image, signed with an Ed25519 and with an ECDSA key.  The workspace is taken apart
from its contents, so that a path is followed once and for all contents.
-/

namespace Signed

def initial : Bytes := [0xaa, 0xbb]

def kek : Key128 := ⟨List.replicate 16 8, rfl⟩

def secret : Key128 := ⟨List.replicate 16 9, rfl⟩

def plain : Bytes := [1, 2, 3]

def first : Key.PublicKey := (Key.SigningKey.ed25519 (List.replicate 32 7)).publicKey

/-- The key with the scalar one. -/
def second : Key.PublicKey := .ec .p256 Crypto.Curve.p256.base

def header : Image.Header :=
  { headerSize := 32, bodySize := 3, flags := Image.flagEncrypted ||| Image.flagNonBootable,
    version := ⟨1, 0, 0, 0⟩ }

def hash : Bytes := Image.contentHashOf (some initial) header [] plain

def firstSignature : Bytes := Crypto.Ed25519.sign (List.replicate 32 7) hash

/-- A signature of the hash with the second key, one byte shorter than its slot. -/
def secondSignature : Bytes :=
  Bytes.resize 72 0 (Key.encodeEcdsa
    ⟨0xc13f8e7dd02be9e434b6c78c12488a838501e0087b52e3e533f2916737abf60d,
      0x2003e07ef0444f4a4e0017a099c2e6b52bfa0d2f1c775d02f515a250befb15a5⟩)

def wrapped : Tlv where
  tag := Tlv.encKekTag
  data := Crypto.KeyWrap.wrap kek.bytes secret.bytes

def image : Image where
  header := header
  pad := []
  body := Secret.crypt secret plain
  tlvs :=
    [⟨Tlv.sha256Tag, 0, hash⟩, ⟨Tlv.keyHashTag, 0, first.keyHash⟩,
      ⟨Tlv.ed25519Tag, 0, firstSignature⟩, ⟨Tlv.keyHashTag, 0, second.keyHash⟩,
      ⟨Tlv.ecdsa256Tag, 0, secondSignature⟩, wrapped]

def file : Bytes := header.toBytes ++ (image.pad ++ image.body ++ Image.tlvBytes image.tlvs)

def keyFile (key : Key.PublicKey) : Bytes := (Key.PublicKeyInfo.ofKey key).toBytes

/-- The key-encryption key in base64, with a line end. -/
def kekFile : Bytes := Base64.encode kek.bytes ++ [10]

def workspaceOf (image first second kek : Bytes) : Workspace where
  files := [(["image"], image), (["first"], first), (["second"], second), (["kek"], kek)]
  source := .cycle [0]

def workspace : Workspace := workspaceOf file (keyFile first) (keyFile second) kekFile

/-- The keys are given in another order than they signed in. -/
def request : Verification where
  input := "image"
  keys := ["second", "first"]
  initial := some "aabb"
  unwrap := .kek "kek"
  passphrase := .prompt

section

variable (image first second kek : Bytes)

theorem load?_image : (workspaceOf image first second kek).load? "image" = some image :=
  IsFileName.load?_eq {}

theorem load?_first : (workspaceOf image first second kek).load? "first" = some first :=
  IsFileName.load?_eq {}

theorem load?_second : (workspaceOf image first second kek).load? "second" = some second :=
  IsFileName.load?_eq {}

theorem load?_kek : (workspaceOf image first second kek).load? "kek" = some kek :=
  IsFileName.load?_eq {}

end

set_option maxRecDepth 100000 in
theorem parse_keyFiles :
    Key.PublicKey.parse (keyFile first) = .ok first ∧
      Key.PublicKey.parse (keyFile second) = .ok second := by
  decide +kernel

theorem parseKek_kekFile : Secret.parseKek kekFile = .ok kek := by
  have hfront : ∀ c ∈ "".toList, Text.isBlank c = true := nofun
  have hback : ∀ c ∈ "\n".toList, Text.isBlank c = true := List.all_eq_true.mp rfl
  refine Secret.parseKek_of_isKekText ⟨"", "\n", hfront, hback, ?_⟩
  rw [Bytes.ofText_eq, Bytes.ofText_eq]
  rfl

theorem reads_request :
    request.Reads workspace (some initial) [second, first] (some (.kek kek)) where
  initial := by
    show (Hex.decode? "aabb").map some = some (some initial)
    rfl
  keys := .cons ⟨keyFile second, load?_second _ _ _ _, parse_keyFiles.2⟩
    (.cons ⟨keyFile first, load?_first _ _ _ _, parse_keyFiles.1⟩ .nil)
  absent := ⟨nofun, nofun⟩
  key := .kek (load?_kek _ _ _ _) parseKek_kekFile

theorem length_hash : hash.length = Content.hashLength := Crypto.length_sha256 _

set_option maxRecDepth 100000 in
theorem parse_file : Image.parse file = .ok image := by
  have hwrapped : wrapped.data.length = 24 :=
    (@Crypto.KeyWrap.wrap_spec _ _ 2 kek.length_eq secret.length_eq).1
  have hkeyHash : ∀ key : Key.PublicKey, key.keyHash.length = 4 := by
    intro key
    rw [Key.PublicKey.keyHash, List.length_take, Crypto.length_sha256]
    rfl
  have hfirst : firstSignature.length = 64 := rfl
  have hsecond : secondSignature.length = 72 := Bytes.length_resize _ _ _
  have htlvs : Image.TlvsFit image.tlvs := by
    have hsize : Tlv.areaSize image.tlvs =
        4 + hash.length + (4 + first.keyHash.length + (4 + firstSignature.length +
          (4 + second.keyHash.length + (4 + secondSignature.length +
            (4 + wrapped.data.length + 0))))) := rfl
    rw [Image.TlvsFit, hsize, length_hash, hkeyHash, hkeyHash, hfirst, hsecond, hwrapped]
    decide
  exact Image.parse_eq_ok_iff_denotes.mpr ⟨⟨rfl, Secret.length_crypt _ _⟩, htlvs, rfl⟩

theorem isLegacy_file : isLegacy file = false := rfl

set_option maxRecDepth 100000 in
theorem violations_image : Image.violations image.tlvs = [] := by
  unfold image Key.PublicKey.keyHash
  simp only [Crypto.Sha256.sha256_eq_digest]
  decide +kernel

set_option maxRecDepth 100000 in
theorem hash_image : image.hash = .ok hash :=
  Verify.hash_eq_ok_iff.mpr ⟨⟨Tlv.sha256Tag, 0, hash⟩, rfl, rfl, length_hash⟩

set_option maxRecDepth 100000 in
theorem checkHash_image : Verify.checkHash image (some initial) (some (.kek kek)) = .ok () := by
  have hencrypted : image.header.isEncrypted = true := by
    show header.isEncrypted = true
    decide
  have hbody : image.decryptedBody (.kek kek) = .ok plain :=
    Image.decryptedBody_eq_ok_iff.mpr ⟨hencrypted, wrapped, secret, rfl,
      Secret.unwrap_kek kek secret, Secret.crypt_crypt _ _⟩
  exact Verify.checkHash_eq_ok_iff.mpr ⟨plain, .decrypted _ _ hencrypted hbody, hash_image⟩

set_option maxRecDepth 100000 in
theorem checkPair_image :
    (Verify.pairsFrom 0 image.tlvs).mapM (Verify.checkPair hash (Verify.named [second, first])) =
      .ok [some 1, some 0] := by
  unfold image firstSignature hash Image.contentHashOf Verify.named Key.PublicKey.keyHash
  simp only [Crypto.Sha256.sha256_eq_digest]
  decide +kernel

theorem checkSignatures_image :
    ∃ places, Verify.checkSignatures image [second, first] = .ok places ∧ ∀ i < 2, i ∈ places := by
  refine ⟨Verify.ascending [1, 0], ?_, fun i hi => Verify.mem_ascending.mpr ?_⟩
  · exact bind_eq_ok_iff.mpr ⟨hash, mapError_eq_ok_iff.mpr hash_image,
      bind_eq_ok_iff.mpr ⟨_, checkPair_image, rfl⟩⟩
  · rw [List.mem_cons, List.mem_singleton]
    omega

theorem exists_yields_request :
    ∃ w', Yields (verifyImage request : InMemory Unit) workspace () w' :=
  (exists_yields_verifyImage (load?_image _ _ _ _) isLegacy_file).mpr
    ⟨some initial, [second, first], some (.kek kek), image, reads_request, parse_file,
      violations_image, fun _ => checkHash_image, checkSignatures_image⟩

end Signed

open Signed in
/-- The verification of the encrypted image succeeds, and vouches for it and for its plaintext. -/
theorem verifyImage_sound_signed :
    ∃ w', (workspace.load? request.input = some file ∧ isLegacy file = false ∧
        Yields (verifyImage request : InMemory Unit) workspace () w') ∧
      ∃ initial keys key img t,
        request.Reads workspace initial keys key ∧ Vouched file initial keys key img t ∧
          ∃ body, PlainBody img key body ∧
            t.data = Crypto.sha256 (initial.getD [] ++ img.header.toBytes ++ img.pad ++ body) := by
  obtain ⟨w', hyields⟩ := exists_yields_request
  obtain ⟨initial, keys, key, img, t, hreads, hvouched⟩ := verifyImage_sound request workspace w'
    file (load?_image _ _ _ _) isLegacy_file hyields
  refine ⟨w', ⟨load?_image _ _ _ _, isLegacy_file, hyields⟩, initial, keys, key, img, t, hreads,
    hvouched, hvouched.hashed ?_⟩
  rintro ⟨-, hnone⟩
  exact absurd (hreads.absent.mp hnone) nofun

end Firmware.Command
