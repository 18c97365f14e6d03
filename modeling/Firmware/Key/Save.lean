import Firmware.Key.Load
import Firmware.Random

/-!
# Writing and generating keys

Keys are written as armoured text: public keys as `PUBLIC KEY`, private ones as PKCS #8 structures,
which are encrypted unless the passphrase is empty.
-/

namespace Firmware.Key

/-- An encoded key, unless it is too large. -/
def writable (error : Error) (der : Bytes) : Except Error Bytes :=
  if der.length ≤ Der.maxSize then .ok der else .error error

namespace PublicKey

/-- The encoded key that key hashes cover.  An Ed25519 key is too short for a failure. -/
def toBytes (k : PublicKey) : Except Error Bytes :=
  match k with
  | rsa _ => writable .savePublicPkcs1 k.encoding
  | ec _ _ => writable .savePublic k.encoding
  | ed25519 _ => .ok k.encoding

/-- A public key as armoured text, in the structure for keys of any algorithm. -/
def toPem (k : PublicKey) : Except Error String := do
  let der ←
    match k with
    | rsa _ => writable .savePublic (PublicKeyInfo.ofKey k).toBytes
    | _ => k.toBytes
  return Pem.encode ⟨"PUBLIC KEY", der⟩

end PublicKey

namespace SigningKey

/-- The PKCS #8 structure of a private key. -/
def toPkcs8 (k : SigningKey) : Except Error Bytes :=
  (PrivateKeyInfo.ofKey? k).elim (.error .save) fun info => writable .save info.toBytes

/-- A private key as armoured text.  With a passphrase, salt and initialization vector are drawn. -/
def toPem (k : SigningKey) (passphrase : String) : Random Error String := do
  let der ← Random.lift k.toPkcs8
  if passphrase.isEmpty then return Pem.encode ⟨"PRIVATE KEY", der⟩
  let salt ← Random.draw 16
  let iv ← Random.draw 16
  let encrypted ← Random.lift
    (writable .save (EncryptedKey.encryptBytes (Bytes.ofText passphrase) salt iv der))
  return Pem.encode ⟨"ENCRYPTED PRIVATE KEY", encrypted⟩

end SigningKey

/-! ## Generating keys -/

/-- Draws a scalar until it is positive and below the order of the curve.  A draw is refused with
negligible probability, so a bound on their number is never met by chance. -/
def drawScalar (c : EcCurve) : Nat → Random Error SigningKey
  | 0 => throw .unsupportedEcKey
  | fuel + 1 => do
    let drawn ← Random.draw c.params.fieldSize
    match SigningKey.ofScalar? c (Bytes.toNatBE drawn) with
    | some key => return key
    | none => drawScalar c fuel

/-- The bound on the draws of a scalar. -/
def maxDraws : Nat := 1000

def generateEc (c : EcCurve) : Random Error SigningKey := drawScalar c maxDraws

def generateEd25519 : Random Error SigningKey := do return .ed25519 (← Random.draw 32)

end Firmware.Key
