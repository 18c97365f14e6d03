import Firmware.Crypto.Ecdsa
import Firmware.Crypto.Ed25519
import Firmware.Crypto.RsaPadding
import Firmware.Encoding.Oid
import Firmware.Legacy.Basic
import Firmware.Text.Quoted

/-!
# Keys

The keys that sign images, and the public keys that signatures are checked with: RSA, ECDSA on one
of two curves, and Ed25519.  The algorithm and, for RSA, the size of the key decide which TLV its
signatures go into; some keys have none.  `Error` lists whatever can go wrong with a key.
-/

namespace Firmware.Key

/-! ## Algorithms -/

/-- A supported elliptic curve. -/
inductive EcCurve where
  | p224
  | p256
deriving DecidableEq, Inhabited

namespace EcCurve

/-- The parameters of the curve. -/
def params : EcCurve → Crypto.Curve
  | p224 => .p224
  | p256 => .p256

/-- The hash function that nonces are derived with. -/
def hash : EcCurve → Crypto.HashFunction
  | p224 => .sha224
  | p256 => .sha256

/-- The fixed size of a signature in an image, for which its encoding is filled up with zeros. -/
def signatureSize : EcCurve → Nat
  | p224 => 68
  | p256 => 72

def oid : EcCurve → Oid
  | p224 => .ofPath [1, 3, 132, 0, 33]
  | p256 => .ofPath [1, 2, 840, 10045, 3, 1, 7]

/-- The curve with a given identifier. -/
def ofOid? (o : Oid) : Option EcCurve := [p224, p256].find? fun c => c.oid == o

end EcCurve

/-- A signature algorithm. -/
inductive Algorithm where
  | rsa
  | ecdsa (curve : EcCurve)
  | ed25519
deriving DecidableEq

def Algorithm.name : Algorithm → String
  | rsa => "RSA"
  | ecdsa .p224 => "ECDSA P-224"
  | ecdsa .p256 => "ECDSA P-256"
  | ed25519 => "Ed25519"

/-! ## Errors -/

/-- Why a key cannot be read, written or used. -/
inductive Error where
  | unrecognized
  | unrecognizedPublic
  | unsupportedLabel (label : String)
  | keyCount (count : Nat)
  | unsupportedAlgorithm (oid : Oid)
  | unsupportedCurve (oid : Oid)
  | unsupportedEcKey
  | unsupportedRsaSize (bits : Nat)
  /-- Keys of this algorithm cannot sign images of the older format. -/
  | unsupportedLegacy (algorithm : Algorithm)
  | invalidEd25519
  | signatureTooLong (size max : Nat)
  | signatureSize (size expected : Nat)
  | verificationFailed
  /-- There is no terminal that could ask for a passphrase. -/
  | notInteractive
  | prompt
  /-- A new passphrase was typed differently the second time. -/
  | unconfirmed
  | environment (name : String)
  | missingEnd
  | malformedArmour
  | loadEncrypted
  | loadPkcs8
  | loadPkcs1
  | loadPublic
  | loadPublicPkcs1
  | save
  | savePublic
  | savePublicPkcs1
  | generateRsa
  | signRsa
  | signEc
  | unreadable (path : String)
  | unwritable (path : String)
deriving DecidableEq

def Error.message : Error → String
  | unrecognized => "Data does not contain a recognized private key"
  | unrecognizedPublic => "Data does not contain a recognized public key"
  | unsupportedLabel label => "Unsupported PEM block: " ++ Text.quoted label
  | keyCount count => s!"Expected exactly one key, but found {count}"
  | unsupportedAlgorithm oid => "Unsupported key algorithm: " ++ oid.toText
  | unsupportedCurve oid => "Unsupported elliptic curve: " ++ oid.toText
  | unsupportedEcKey => "EC key is not on a supported curve (P-224 or P-256)"
  | unsupportedRsaSize bits => s!"RSA key size ({bits} bits) not supported"
  | unsupportedLegacy algorithm => algorithm.name ++ " keys cannot sign legacy images"
  | invalidEd25519 => "Invalid Ed25519 key"
  | signatureTooLong size max => s!"Signature is {size} bytes, but must fit in {max} bytes"
  | signatureSize size expected => s!"Signature is {size} bytes, but expected {expected} bytes"
  | verificationFailed => "Signature verification failed"
  | notInteractive => "Passphrase prompt requires an interactive terminal"
  | prompt => "Failed to prompt for passphrase"
  | unconfirmed => "Passphrases do not match"
  | environment name => "Failed to read environment variable: " ++ Text.quotedPath name
  | missingEnd => "PEM has start tag, but no end tag"
  | malformedArmour => "Failed to decode PEM block"
  | loadEncrypted => "Failed to load encrypted private key"
  | loadPkcs8 => "Failed to load PKCS#8 private key"
  | loadPkcs1 => "Failed to load PKCS#1 RSA private key"
  | loadPublic => "Failed to load public key"
  | loadPublicPkcs1 => "Failed to load PKCS#1 RSA public key"
  | save => "Failed to save private key"
  | savePublic => "Failed to save public key"
  | savePublicPkcs1 => "Failed to encode RSA public key"
  | generateRsa => "Failed to generate RSA key"
  | signRsa => "Failed to RSA sign digest"
  | signEc => "Failed to ECDSA sign digest"
  | unreadable path => "Failed to read file: " ++ Text.quotedPath path
  | unwritable path => "Failed to write file: " ++ Text.quotedPath path

/-! ## Public keys -/

inductive PublicKey where
  | rsa (key : Crypto.Rsa.PublicKey)
  | ec (curve : EcCurve) (point : Crypto.Curve.Point)
  /-- The 32 bytes that encode a point. -/
  | ed25519 (point : Bytes)
deriving DecidableEq

namespace PublicKey

/-- The algorithm of the signatures that the key checks. -/
def algorithm : PublicKey → Algorithm
  | rsa _ => .rsa
  | ec curve _ => .ecdsa curve
  | ed25519 _ => .ed25519

def signatureSize : PublicKey → Nat
  | rsa key => key.size
  | ec curve _ => curve.signatureSize
  | ed25519 _ => 64

def signatureTag : PublicKey → Except Error UInt8
  | rsa key =>
    if key.size = 256 then .ok Tlv.rsa2048Tag
    else if key.size = 384 then .ok Tlv.rsa3072Tag
    else .error (.unsupportedRsaSize (key.size * 8))
  | ec .p224 _ => .ok Tlv.ecdsa224Tag
  | ec .p256 _ => .ok Tlv.ecdsa256Tag
  | ed25519 _ => .ok Tlv.ed25519Tag

def legacySignatureTag : PublicKey → Except Error UInt8
  | rsa key =>
    if key.size = 256 then .ok Legacy.rsa2048Tag
    else .error (.unsupportedRsaSize (key.size * 8))
  | ec .p224 _ => .ok Legacy.ecdsa224Tag
  | ec .p256 _ => .ok Legacy.ecdsa256Tag
  | ed25519 _ => .error (.unsupportedLegacy .ed25519)

end PublicKey

/-! ## Signing keys -/

/-- A private key. -/
inductive SigningKey where
  | rsa (key : Crypto.Rsa.PrivateKey)
  /-- A scalar of the curve and the multiple of the base point that it gives. -/
  | ec (curve : EcCurve) (scalar : Nat) (point : Crypto.Curve.Point)
  | ed25519 (seed : Bytes)
deriving DecidableEq

namespace SigningKey

/-- The key with a given scalar, which must be positive and below the order of the curve. -/
def ofScalar? (curve : EcCurve) (scalar : Nat) : Option SigningKey :=
  if 0 < scalar ∧ scalar < curve.params.n then
    (curve.params.mulBase scalar).map (.ec curve scalar)
  else none

/-- The public half. -/
def publicKey : SigningKey → PublicKey
  | rsa key => .rsa key.toPublic
  | ec curve _ point => .ec curve point
  | ed25519 seed => .ed25519 (Crypto.Ed25519.publicKey seed)

/-- The algorithm of the signatures that the key makes. -/
def algorithm : SigningKey → Algorithm
  | rsa _ => .rsa
  | ec curve _ _ => .ecdsa curve
  | ed25519 _ => .ed25519

def signatureSize : SigningKey → Nat
  | rsa key => key.size
  | ec curve _ _ => curve.signatureSize
  | ed25519 _ => 64

def signatureTag (k : SigningKey) : Except Error UInt8 :=
  match k with
  | rsa key => (PublicKey.rsa key.toPublic).signatureTag
  | ec curve _ point => (PublicKey.ec curve point).signatureTag
  | ed25519 _ => .ok Tlv.ed25519Tag

def legacySignatureTag (k : SigningKey) : Except Error UInt8 :=
  match k with
  | rsa key => (PublicKey.rsa key.toPublic).legacySignatureTag
  | ec curve _ point => (PublicKey.ec curve point).legacySignatureTag
  | ed25519 _ => .error (.unsupportedLegacy .ed25519)

/-- The key as debug output shows it, without the secret part. -/
def toDebug (k : SigningKey) : String := "SignKey(" ++ Text.quoted k.algorithm.name ++ ")"

end SigningKey

end Firmware.Key
