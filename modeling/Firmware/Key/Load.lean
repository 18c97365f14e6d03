import Firmware.Encoding.Pem
import Firmware.Key.Encrypted
import Firmware.Text.Blank

/-!
# Reading keys

A key comes as armoured text with exactly one key in it, or as bare DER, of which the structure is
found by trying.  The passphrase of an encrypted key is asked for only once the key's structure has
been read.
-/

namespace Firmware.Key

/-! ## Passphrases -/

/-- What comes of a prompt on a terminal. -/
inductive Reply where
  | typed (text : String)
  /-- There is no terminal. -/
  | absent
  /-- There is a terminal, but nothing can be read from it. -/
  | broken
deriving DecidableEq

def Reply.text : Reply → Except Error String
  | typed text => .ok text
  | absent => .error .notInteractive
  | broken => .error .prompt

/-- Where a passphrase comes from, with what stands there. -/
inductive Passphrase where
  /-- A terminal with the reply to a prompt and, if the passphrase had to be confirmed, the reply to
  the second prompt. -/
  | terminal (reply : Reply) (again : Option Reply)
  | variable (name : String) (value : Option String)
  | file (path : String) (content : Option Bytes)

/-- A terminal that is not there. -/
def Passphrase.silent : Passphrase := .terminal .absent none

/-- The passphrase.  Line ends at the end of a file do not belong to it. -/
def Passphrase.acquire : Passphrase → Except Error String
  | terminal reply none => reply.text
  | terminal reply (some again) => do
    let text ← reply.text
    if (← again.text) = text then return text else throw .unconfirmed
  | «variable» name value => value.elim (.error (.environment name)) .ok
  | file path content =>
    match content >>= Bytes.toText? with
    | none => .error (.unreadable path)
    | some text => .ok (Text.trimLineEnds text)

/-! ## Private keys -/

/-- Reads an encrypted private key. -/
def encryptedOf (der : Bytes) (passphrase : Passphrase) : Except Error SigningKey :=
  match EncryptedKey.ofBytes? der with
  | none => .error .loadEncrypted
  | some key => do
    let text ← passphrase.acquire
    match key.decrypt? (Bytes.ofText text) with
    | none => .error .loadEncrypted
    | some der => pkcs8Of der

/-- Reads a private key that is not armoured. -/
def bareKeyOf (der : Bytes) : Except Error SigningKey :=
  match pkcs8Of der with
  | .ok key => .ok key
  | .error _ =>
    match rsaPrivateOf? der with
    | some key => .ok (.rsa key)
    | none => (ecPrivateOf der).mapError fun _ => .unrecognized

/-- Reads the private key in a block; a block of curve parameters has none. -/
def blockKeyOf (passphrase : Passphrase) (block : Pem.Block) : Except Error (Option SigningKey) :=
  match block.label with
  | "EC PARAMETERS" => .ok none
  | "RSA PRIVATE KEY" =>
    (rsaPrivateOf? block.content).elim (.error .loadPkcs1) fun key => .ok (some (.rsa key))
  | "EC PRIVATE KEY" => some <$> ecPrivateOf block.content
  | "PRIVATE KEY" => some <$> pkcs8Of block.content
  | "ENCRYPTED PRIVATE KEY" => some <$> encryptedOf block.content passphrase
  | label => .error (.unsupportedLabel label)

/-- The blocks of armoured data. -/
def blocksOf (data : Bytes) : Except Error (List Pem.Block) :=
  (Pem.decodeAll data).mapError fun
    | .missingEnd => .missingEnd
    | .malformed => .malformedArmour

/-- The one key in a list. -/
def single {α : Type} (missing : Error) : List α → Except Error α
  | [] => .error missing
  | [key] => .ok key
  | keys => .error (.keyCount keys.length)

def SigningKey.parse (data : Bytes) (passphrase : Passphrase) : Except Error SigningKey :=
  if Pem.isArmoured data then do
    let keys ← (← blocksOf data).mapM (blockKeyOf passphrase)
    single .unrecognized keys.reduceOption
  else bareKeyOf data

/-! ## Public keys -/

/-- Reads a public key that is not armoured. -/
def barePublicKeyOf (der : Bytes) : Except Error PublicKey :=
  match publicKeyOf der with
  | .ok key => .ok key
  | .error _ => (rsaPublicOf? der).elim (.error .unrecognizedPublic) (.ok ∘ .rsa)

def blockPublicKeyOf (block : Pem.Block) : Except Error PublicKey :=
  match block.label with
  | "PUBLIC KEY" => publicKeyOf block.content
  | "RSA PUBLIC KEY" => (rsaPublicOf? block.content).elim (.error .loadPublicPkcs1) (.ok ∘ .rsa)
  | label => .error (.unsupportedLabel label)

def PublicKey.parse (data : Bytes) : Except Error PublicKey :=
  if Pem.isArmoured data then do
    single .unrecognizedPublic (← (← blocksOf data).mapM blockPublicKeyOf)
  else barePublicKeyOf data

/-- Reads a public key that must be an RSA key. -/
def parseRsaPublic (data : Bytes) : Except Error Crypto.Rsa.PublicKey := do
  match ← PublicKey.parse data with
  | .rsa key => return key
  | _ => throw .unrecognizedPublic

end Firmware.Key
