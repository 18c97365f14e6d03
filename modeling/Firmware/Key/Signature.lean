import Firmware.Encoding.Der
import Firmware.Key.Basic
import Firmware.Random

/-!
# Signatures

Signatures on the content hash of an image.  RSA keys use PSS, and PKCS #1 v1.5 in images of the
older format on request.  An ECDSA signature is a DER sequence of two numbers, filled up with zeros
to a size that the curve fixes.  Ed25519 signs the hash as a message of its own.
-/

namespace Firmware.Key

/-- The padding of RSA signatures in images of the older format. -/
inductive RsaPadding where
  | pkcs1
  | pss
deriving DecidableEq

/-- The padding unless another one is asked for. -/
instance : Inhabited RsaPadding := ⟨.pss⟩

/-! ## ECDSA signatures in slots of fixed size -/

/-- The encoding of an ECDSA signature. -/
def encodeEcdsa (sig : Crypto.Ecdsa.Signature) : Bytes :=
  (Der.sequence [Der.integer sig.r, Der.integer sig.s]).toBytes

def decodeEcdsa? (bytes : Bytes) : Option Crypto.Ecdsa.Signature := do
  match ← (← Der.parse? bytes).sequence? with
  | [r, s] => return ⟨← r.natural?, ← s.natural?⟩
  | _ => none

/-- Fills an encoding up with zeros. -/
def padEcdsa (size : Nat) (encoded : Bytes) : Except Error Bytes :=
  if size < encoded.length then .error (.signatureTooLong encoded.length size)
  else .ok (Bytes.resize size 0 encoded)

/-- The encoding in a slot, as long as its own header tells. -/
def unpadEcdsa? : Bytes → Option Bytes
  | tag :: length :: rest =>
    if tag = Der.sequenceTag ∧ length < 0x80 ∧ length.toNat ≤ rest.length then
      some (tag :: length :: rest.take length.toNat)
    else none
  | _ => none

/-! ## Signing -/

/-- An ECDSA signature of a hash. -/
def signEcdsa (curve : EcCurve) (scalar : Nat) (hash : Bytes) : Random Error Bytes := do
  match Crypto.Ecdsa.fitHash? curve.params hash with
  | none => throw .signEc
  | some fitted =>
    let drawn ← Random.draw curve.params.fieldSize
    match Crypto.Ecdsa.sign? curve.hash curve.params scalar fitted drawn with
    | none => throw .signEc
    | some sig => Random.lift (padEcdsa curve.signatureSize (encodeEcdsa sig))

/-- An RSA signature of a hash with PSS padding.  The salt is drawn even when the hash is refused.
-/
def signPss (key : Crypto.Rsa.PrivateKey) (hash : Bytes) : Random Error Bytes := do
  let salt ← Random.draw Crypto.Rsa.saltSize
  match key.signPss? hash salt with
  | none => throw .signRsa
  | some sig => return sig

def SigningKey.sign (k : SigningKey) (hash : Bytes) : Random Error Bytes :=
  match k with
  | .rsa key => signPss key hash
  | .ec curve scalar _ => signEcdsa curve scalar hash
  | .ed25519 seed => return Crypto.Ed25519.sign seed hash

/-- The signature of a hash in an image of the older format. -/
def SigningKey.signLegacy (k : SigningKey) (hash : Bytes) (padding : RsaPadding) :
    Random Error Bytes :=
  match k, padding with
  | .rsa key, .pkcs1 =>
    match key.signPkcs1? hash with
    | none => throw .signRsa
    | some sig => return sig
  | .ed25519 _, _ => throw (.unsupportedLegacy .ed25519)
  | _, _ => k.sign hash

/-! ## Verifying -/

/-- Succeeds on a true condition. -/
def require (ok : Bool) : Except Error Unit := if ok then .ok () else .error .verificationFailed

/-- Whether a slot holds an ECDSA signature of a hash. -/
def verifyEcdsa (curve : EcCurve) (point : Crypto.Curve.Point) (hash slot : Bytes) : Bool :=
  match unpadEcdsa? slot >>= decodeEcdsa? with
  | none => false
  | some sig => Crypto.Ecdsa.verify curve.params point hash sig

/-- Checks the signature of a hash. -/
def PublicKey.verify (k : PublicKey) (hash sig : Bytes) : Except Error Unit :=
  match k with
  | .rsa key => require (key.verifyPss hash sig)
  | .ec curve point => require (verifyEcdsa curve point hash sig)
  | .ed25519 point =>
    if sig.length ≠ k.signatureSize then .error (.signatureSize sig.length k.signatureSize)
    else require (Crypto.Ed25519.verify point hash sig)

/-- Checks the signature of a hash in an image of the older format. -/
def PublicKey.verifyLegacy (k : PublicKey) (hash sig : Bytes) (padding : RsaPadding) :
    Except Error Unit :=
  match k, padding with
  | .rsa key, .pkcs1 => require (key.verifyPkcs1 hash sig)
  | .ed25519 _, _ => .error (.unsupportedLegacy .ed25519)
  | _, _ => k.verify hash sig

end Firmware.Key
