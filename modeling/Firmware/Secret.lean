import Firmware.Crypto.AesModes
import Firmware.Crypto.KeyWrap
import Firmware.Key.Load
import Firmware.Random
import Firmware.Text.Blank

/-!
# Image secrets

Every encrypted image has a secret of its own.  It encrypts the body in counter mode with a counter
that starts at zero, and stands in the image in wrapped form: encrypted with an RSA public key, or
wrapped with a shared key-encryption key.  Since the key stream depends on nothing but the secret, a
secret must never encrypt two images.
-/

namespace Firmware

/-- A 128-bit AES key: an image secret or a key-encryption key. -/
structure Key128 where
  bytes : Bytes
  length_eq : bytes.length = 16
deriving DecidableEq

/-- The key with the given bytes, if there are 16 of them. -/
def Key128.ofBytes? (bytes : Bytes) : Option Key128 :=
  if h : bytes.length = 16 then some ⟨bytes, h⟩ else none

namespace Secret

/-- Why a secret cannot be wrapped or unwrapped. -/
inductive Error where
  | invalidWrapKey
  | invalidKekSize (size : Nat)
  | unsupportedRsaSize (bits : Nat)
  | wrappedSize (size expected : Nat)
  | secretSize (size : Nat)
  | keyMismatch (tag : UInt8)
  | notSecret (tag : UInt8)
  | notEncrypted
  | secretCount (count : Nat)
  | rsaWrap
  | rsaUnwrap
  | kekUnwrap
deriving DecidableEq

def Error.message : Error → String
  | invalidWrapKey => "Encryption key is neither an RSA public key nor a base64-encoded AES key"
  | invalidKekSize size => s!"Key-encryption key must be 16 bytes, but is {size} bytes"
  | unsupportedRsaSize bits => s!"RSA key size ({bits} bits) not supported for secret wrapping"
  | wrappedSize size expected => s!"Wrapped secret is {size} bytes, but expected {expected} bytes"
  | secretSize size => s!"Unwrapped secret is {size} bytes, but expected 16 bytes"
  | keyMismatch tag => Tlv.tagName tag ++ " secret cannot be unwrapped with this key"
  | notSecret tag => "TLV type " ++ Hex.prefixed 2 tag.toNat ++ " is not a wrapped secret"
  | notEncrypted => "Image is not encrypted"
  | secretCount count => s!"Expected exactly one wrapped secret TLV, but have {count}"
  | rsaWrap => "Failed to wrap secret with RSA key"
  | rsaUnwrap => "Failed to unwrap secret with RSA key"
  | kekUnwrap => "Failed to unwrap secret with AES key: IntegrityCheckFailed"

def generate {ε : Type} : Random ε Key128 := fun source =>
  (.ok ⟨(source.draw 16).1, by simp [RandomSource.draw]⟩, (source.draw 16).2)

/-- A body encrypted, or an encrypted body decrypted, with a secret. -/
def crypt (secret : Key128) (body : Bytes) : Bytes := Crypto.Aes.ctr secret.bytes body

/-! ## Wrapping -/

/-- A key that secrets are wrapped with. -/
inductive WrapKey where
  | rsa (key : Crypto.Rsa.PublicKey)
  | kek (key : Key128)
deriving DecidableEq

/-- The size in bytes of the modulus of an RSA key that wraps secrets. -/
def rsaSize : Nat := 256

/-- The size of a secret wrapped with a key-encryption key. -/
def kekWrappedSize : Nat := 24

/-- Reads a key-encryption key in base64, with blanks around it. -/
def parseKek (data : Bytes) : Except Error Key128 :=
  match Bytes.toText? data with
  | none => .error .invalidWrapKey
  | some text =>
    match Base64.decode? (Bytes.ofText (Text.trim text)) with
    | none => .error .invalidWrapKey
    | some bytes => (Key128.ofBytes? bytes).elim (.error (.invalidKekSize bytes.length)) .ok

/-- Reads a key that secrets are wrapped with: an RSA public key if the data is one. -/
def WrapKey.parse (data : Bytes) : Except Error WrapKey :=
  match Key.parseRsaPublic data with
  | .ok key =>
    if key.size = rsaSize then .ok (.rsa key) else .error (.unsupportedRsaSize (key.size * 8))
  | .error _ => .kek <$> parseKek data

/-- The value that holds a secret in wrapped form.  For an RSA key, a seed is drawn. -/
def WrapKey.wrap (key : WrapKey) (secret : Key128) : Random Error Tlv :=
  match key with
  | rsa key => do
    let seed ← Random.draw Crypto.Rsa.hashSize
    match key.encryptOaep? secret.bytes seed with
    | none => throw .rsaWrap
    | some data => return { tag := Tlv.encRsaTag, data }
  | kek key => return { tag := Tlv.encKekTag, data := Crypto.KeyWrap.wrap key.bytes secret.bytes }

/-- Wraps a secret with a key that is still to be read. -/
def wrap (keyData : Bytes) (secret : Key128) : Random Error Tlv := do
  (← Random.lift (WrapKey.parse keyData)).wrap secret

/-! ## Unwrapping -/

/-- A key that unwraps secrets. -/
inductive UnwrapKey where
  | rsa (key : Crypto.Rsa.PrivateKey)
  | kek (key : Key128)
deriving DecidableEq

/-- The key as debug output shows it, without the secret part. -/
def UnwrapKey.toDebug : UnwrapKey → String
  | rsa _ => "DecryptKey::Rsa(<redacted>)"
  | kek _ => "DecryptKey::Kek(<redacted>)"

/-- The bytes in a wrapped form. -/
def UnwrapKey.open (key : UnwrapKey) (t : Tlv) : Except Error Bytes :=
  if t.tag = Tlv.encRsaTag then
    match key with
    | kek _ => .error (.keyMismatch t.tag)
    | rsa key =>
      if t.data.length ≠ key.size then .error (.wrappedSize t.data.length key.size)
      else (key.decryptOaep? t.data).elim (.error .rsaUnwrap) .ok
  else if t.tag = Tlv.encKekTag then
    match key with
    | rsa _ => .error (.keyMismatch t.tag)
    | kek key =>
      if t.data.length ≠ kekWrappedSize then .error (.wrappedSize t.data.length kekWrappedSize)
      else (Crypto.KeyWrap.unwrap? key.bytes t.data).elim (.error .kekUnwrap) .ok
  else .error (.notSecret t.tag)

/-- The secret in a wrapped form. -/
def UnwrapKey.unwrap (key : UnwrapKey) (t : Tlv) : Except Error Key128 := do
  let bytes ← key.open t
  (Key128.ofBytes? bytes).elim (.error (.secretSize bytes.length)) .ok

end Secret

end Firmware
