import Firmware.Image.Decrypt
import Firmware.Image.Structure
import Firmware.Key.Signature

/-!
# Verifying images

Three checks of an image that do not depend on each other: the structure of its TLV area, its
content hash, and its signatures.  A signature counts if the key hash before it names one of the
given keys; the others are skipped.  For images of the older format hash and signature are one
check.
-/

namespace Firmware.Verify

/-! ## Errors -/

/-- Why an image fails a check. -/
inductive Error where
  | violations (list : List Image.Violation)
  | hashMismatch (expected actual : Bytes)
  /-- The hash of an encrypted image cannot be checked without a key. -/
  | encryptedNoKey
  /-- A signature is of another type than the key that its key hash names. -/
  | signatureType (index : Nat) (tag : UInt8) (place : Nat) (algorithm : Key.Algorithm)
  | signature (index place : Nat) (cause : Key.Error)
  | missingLegacySignature (tag : UInt8)
  | image (cause : Image.Error)
  | legacy (cause : Legacy.Error)
  | key (cause : Key.Error)
  | secret (cause : Secret.Error)
deriving DecidableEq

namespace Error

/-- The text of an error, without that of its cause. -/
def message : Error → String
  | violations list =>
    "Image structure is invalid: " ++ "; ".intercalate (list.map (·.message))
  | hashMismatch expected actual =>
    "Hash mismatch: expected " ++ Hex.encode expected ++ ", but have " ++ Hex.encode actual
  | encryptedNoKey => "Image is encrypted, but no decryption key was provided"
  | signatureType index tag place algorithm =>
    s!"TLV #{index}: Signature type {Tlv.tagName tag} does not match {algorithm.name} key #{place}"
  | signature index place _ => s!"TLV #{index}: Signature failed to verify with key #{place}"
  | missingLegacySignature tag =>
    "Legacy image has no signature TLV of type " ++ Hex.prefixed 2 tag.toNat
  | image _ => "Image format error"
  | legacy _ => "Legacy image format error"
  | key _ => "Crypto error"
  | secret _ => "Failed to decrypt image"

/-- The texts of an error and of its causes. -/
def texts (e : Error) : List String :=
  e.message ::
    match e with
    | signature _ _ cause | key cause => [cause.message]
    | image cause => [cause.message]
    | legacy cause => cause.texts
    | secret cause => [cause.message]
    | _ => []

end Error

/-! ## Current images -/

def checkStructure (img : Image) : Except Error Unit :=
  match Image.violations img.tlvs with
  | [] => .ok ()
  | list => .error (.violations list)

def compareHash (expected actual : Bytes) : Except Error Unit :=
  if actual = expected then .ok () else .error (.hashMismatch expected actual)

/-- The plaintext body, for which an encrypted image needs a key. -/
def plainBody (img : Image) (key : Option Secret.UnwrapKey) : Except Error Bytes :=
  if img.header.isEncrypted then
    match key with
    | none => .error .encryptedNoKey
    | some key => (img.decryptedBody key).mapError .secret
  else .ok img.body

def checkHash (img : Image) (initial : Option Bytes) (key : Option Secret.UnwrapKey) :
    Except Error Unit := do
  let expected ← img.hash.mapError .image
  let body ← plainBody img key
  compareHash expected (Image.contentHashOf initial img.header img.pad body)

/-- A key hash and the signature behind it at an index. -/
structure Pair where
  keyHash : Bytes
  index : Nat
  signature : Tlv

/-- The pairs in an area of which the first value has the given index. -/
def pairsFrom : Nat → List Tlv → List Pair
  | i, a :: b :: rest =>
    if a.tag = Tlv.keyHashTag ∧ Tlv.isSignature b.tag then
      ⟨a.data, i + 1, b⟩ :: pairsFrom (i + 1) (b :: rest)
    else pairsFrom (i + 1) (b :: rest)
  | _, _ => []

/-- A public key with its place in a list and its hash. -/
structure Named where
  key : Key.PublicKey
  place : Nat
  hash : Bytes

/-- The keys of a list with their places and hashes. -/
def named (keys : List Key.PublicKey) : List Named :=
  keys.zipIdx.map fun (key, place) => ⟨key, place, key.keyHash⟩

/-- Checks a signature and gives the place of its key, the first one with the hash, if there is one.
-/
def checkPair (hash : Bytes) (keys : List Named) (p : Pair) : Except Error (Option Nat) :=
  match keys.find? fun k => k.hash == p.keyHash with
  | none => .ok none
  | some ⟨k, i, _⟩ => do
    let tag ← k.signatureTag.mapError .key
    if tag ≠ p.signature.tag then
      throw (.signatureType p.index p.signature.tag i k.algorithm)
    (k.verify hash p.signature.data).mapError (.signature p.index i)
    return some i

/-- The places in order, each one once. -/
def ascending (places : List Nat) : List Nat :=
  places.eraseDups.mergeSort fun a b => decide (a ≤ b)

/-- Checks every signature with one of the given keys and gives the places of the keys that have a
signature. -/
def checkSignatures (img : Image) (keys : List Key.PublicKey) : Except Error (List Nat) := do
  let hash ← img.hash.mapError .image
  let places ← (pairsFrom 0 img.tlvs).mapM (checkPair hash (named keys))
  return ascending places.reduceOption

/-! ## Images of the older format -/

/-- The padding that the flags of an image tell for an RSA signature. -/
def legacyPadding (flags : UInt32) : Key.RsaPadding :=
  if flags &&& Legacy.flagPkcs15 ≠ 0 then .pkcs1 else .pss

/-- Checks the content hash and, if there is a key, the first signature of its type. -/
def checkLegacy (img : Legacy) (initial : Option Bytes) (key : Option Key.PublicKey) :
    Except Error Unit := do
  let expected ← img.hash.mapError .legacy
  compareHash expected (img.contentHash initial)
  match key with
  | none => return ()
  | some key =>
    let tag ← key.legacySignatureTag.mapError .key
    match img.tlvs.zipIdx.find? fun (t, _) => t.tag == tag with
    | none => throw (.missingLegacySignature tag)
    | some (t, index) =>
      (key.verifyLegacy expected t.data (legacyPadding img.header.flags)).mapError
        (.signature index 0)

end Firmware.Verify
