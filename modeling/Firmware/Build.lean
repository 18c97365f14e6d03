import Firmware.Legacy.Format
import Firmware.Verify

/-!
# Building images

An image is built from a plaintext body, a version and keys.  The hash covers the plaintext; then
the body is encrypted, if that is asked for, and every key signs the hash.  In the current format
any number of keys may sign, and the TLV area of the result is checked.  In the older format at most
one key signs, and since the hash covers the size of the TLV area, that size is computed beforehand.
-/

namespace Firmware.Build

/-! ## Errors -/

/-- Why an image cannot be built. -/
inductive Error where
  | headerSizeTooSmall (size : UInt16)
  | bodyTooLarge (size : Nat)
  | tooManyLegacyKeys (count : Nat)
  | signatureSize (tag : UInt8) (expected actual : Nat)
  | legacyTlvsTooLarge (size : Nat)
  | key (cause : Key.Error)
  | secret (cause : Secret.Error)
  | image (cause : Image.Error)
  | legacy (cause : Legacy.Error)
  | verify (cause : Verify.Error)
deriving DecidableEq

namespace Error

/-- The text of an error, without that of its cause. -/
def message : Error → String
  | headerSizeTooSmall size => s!"Header size too small: {size} < {Content.headerLength}"
  | bodyTooLarge size => s!"Body too large: {size} bytes"
  | tooManyLegacyKeys count => s!"Legacy images support at most one signing key, but have {count}"
  | signatureSize tag expected actual =>
    Tlv.tagName tag ++ s!" signature is {actual} bytes, but expected {expected} bytes"
  | legacyTlvsTooLarge size => s!"Total TLV size too large for legacy image: {size} bytes"
  | key _ => "Crypto error"
  | secret _ => "Secret error"
  | image _ => "Image format error"
  | legacy _ => "Legacy image format error"
  | verify _ => "Built image failed verification"

/-- The texts of an error and of its causes. -/
def texts (e : Error) : List String :=
  e.message ::
    match e with
    | key cause => [cause.message]
    | secret cause => [cause.message]
    | image cause => [cause.message]
    | legacy cause => cause.texts
    | verify cause => cause.texts
    | _ => []

end Error

/-! ## Common parts -/

/-- The zero bytes that fill a header up to its size. -/
def padding (headerSize : UInt16) : Except Error Bytes :=
  if headerSize.toNat < Content.headerLength then .error (.headerSizeTooSmall headerSize)
  else .ok (Bytes.zeros (headerSize.toNat - Content.headerLength))

/-- The size of a body as a header field. -/
def bodySize (body : Bytes) : Except Error UInt32 :=
  if body.length < UInt32.size then .ok (UInt32.ofNat body.length)
  else .error (.bodyTooLarge body.length)

/-- A signature in its value, if it has the size that its key promises. -/
def signatureTlv (key : Key.SigningKey) (tag : UInt8) (sig : Bytes) : Except Error Tlv :=
  if sig.length = key.signatureSize then .ok { tag, data := sig }
  else .error (.signatureSize tag key.signatureSize sig.length)

/-! ## Current images -/

/-- What an image is built from. -/
structure Plan where
  body : Bytes
  version : Version
  /-- The keys that sign, in order. -/
  keys : List Key.SigningKey := []
  /-- The key that the image secret is wrapped with; without it the body stays in plaintext. -/
  wrapKey : Option Bytes := none
  /-- The hash of the image that this one is chained behind. -/
  initial : Option Bytes := none
  headerSize : UInt16 := 32

namespace Plan

def flags (p : Plan) : UInt32 :=
  (if p.initial.isSome then Image.flagNonBootable else 0) |||
    (if p.wrapKey.isSome then Image.flagEncrypted else 0)

/-- The encrypted body and the wrapped secret, or just the body. -/
def encrypted (p : Plan) : Random Error (Bytes × Option Tlv) :=
  match p.wrapKey with
  | none => return (p.body, none)
  | some wrapKey => do
    let secret ← Secret.generate
    let wrapped ← (Secret.wrap wrapKey secret).mapError .secret
    return (Secret.crypt secret p.body, some wrapped)

/-- The key hash and the signature of one key. -/
def signedBy (hash : Bytes) (key : Key.SigningKey) : Random Error (List Tlv) := do
  let tag ← Random.lift (key.signatureTag.mapError .key)
  let sig ← (key.sign hash).mapError .key
  let sig ← Random.lift (signatureTlv key tag sig)
  return [{ tag := Tlv.keyHashTag, data := key.publicKey.keyHash }, sig]

def build (p : Plan) : Random Error Image := do
  let pad ← Random.lift (padding p.headerSize)
  let bodySize ← Random.lift (bodySize p.body)
  let header : Image.Header :=
    { headerSize := p.headerSize, bodySize, flags := p.flags, version := p.version }
  let hash := Image.contentHashOf p.initial header pad p.body
  let (body, wrapped) ← p.encrypted
  let signatures ← p.keys.mapM (signedBy hash)
  let tlvs := { tag := Tlv.sha256Tag, data := hash } :: signatures.flatten ++ wrapped.toList
  let img : Image := { header, pad, body, tlvs }
  Random.lift ((Verify.checkStructure img).mapError .verify)
  return img

end Plan

/-! ## Images of the older format -/

/-- What an image of the older format is built from. -/
structure LegacyPlan where
  body : Bytes
  version : Version
  /-- At most one key. -/
  keys : List Key.SigningKey := []
  /-- What the boot loader knows the key by. -/
  keyId : UInt8 := 0
  initial : Option Bytes := none
  headerSize : UInt16 := 32
  padding : Key.RsaPadding := default

namespace LegacyPlan

/-- The flag that tells the algorithm of a signature. -/
def keyFlag (p : LegacyPlan) : Key.Algorithm → UInt32
  | .rsa =>
    match p.padding with
    | .pkcs1 => Legacy.flagPkcs15
    | .pss => Legacy.flagPss
  | .ecdsa .p224 => Legacy.flagEcdsa224
  | .ecdsa .p256 => Legacy.flagEcdsa256
  | .ed25519 => 0

def flags (p : LegacyPlan) (key : Option Key.SigningKey) : UInt32 :=
  Legacy.flagSha256 ||| (if p.initial.isSome then Legacy.flagNonBootable else 0) |||
    key.elim 0 fun key => p.keyFlag key.algorithm

/-- The size of the TLV area as a header field. -/
def tlvSize (key : Option Key.SigningKey) : Except Error UInt16 :=
  let size := Tlv.sizeFor Content.hashLength +
    key.elim 0 fun key => Tlv.sizeFor key.signatureSize
  if size < UInt16.size then .ok (UInt16.ofNat size) else .error (.legacyTlvsTooLarge size)

/-- The one key of a plan, if there is one. -/
def key? (p : LegacyPlan) : Except Error (Option Key.SigningKey) :=
  match p.keys with
  | [] => .ok none
  | [key] => .ok (some key)
  | keys => .error (.tooManyLegacyKeys keys.length)

/-- The image without its TLV area. -/
def unsigned (p : LegacyPlan) (key : Option Key.SigningKey) : Except Error Legacy := do
  let pad ← Build.padding p.headerSize
  let bodySize ← bodySize p.body
  let _ ← key.mapM fun key => key.legacySignatureTag.mapError Error.key
  let tlvSize ← tlvSize key
  let header : Legacy.Header :=
    { tlvSize, keyId := if key.isSome then p.keyId else 0, headerSize := p.headerSize, bodySize,
      flags := p.flags key, version := p.version }
  return { header, pad, body := p.body, tlvs := [] }

def signedBy (p : LegacyPlan) (hash : Bytes) (key : Key.SigningKey) : Random Error Tlv := do
  let tag ← Random.lift (key.legacySignatureTag.mapError .key)
  let sig ← (key.signLegacy hash p.padding).mapError .key
  Random.lift (signatureTlv key tag sig)

def build (p : LegacyPlan) : Random Error Legacy := do
  let key ← Random.lift p.key?
  let img ← Random.lift (p.unsigned key)
  let hash := img.contentHash p.initial
  let signatures ← key.toList.mapM (p.signedBy hash)
  return { img with tlvs := { tag := Legacy.sha256Tag, data := hash } :: signatures }

end LegacyPlan

end Firmware.Build
