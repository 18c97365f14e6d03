import Firmware.Command.Basic
import Firmware.Command.Host
import Firmware.Toml.Report

/-!
# Commands about keys

Reading keys from files for any command, and the commands that generate, show and convert keys.
-/

namespace Firmware.Command

variable {m : Type → Type} [Monad m] [Host m]

/-! ## Reading keys -/

/-- The prompt for the passphrase of a key in a file. -/
def passphrasePrompt (path : String) : String :=
  "Enter passphrase for " ++ Text.quotedPath path ++ ": "

/-- The prompt for a passphrase that has to be confirmed. -/
def confirmPrompt : String := "Confirm: "

/-- The passphrase source for the key in a file, with what stands there. -/
def passphraseSource (path : String) : PassphraseOption → Session m Key.Passphrase
  | .prompt => return .terminal (← liftM (Host.ask (passphrasePrompt path) : m Key.Reply)) none
  | .variable name => return .variable name (← liftM (Host.lookup name : m (Option String)))
  | .file path => return .file path (← liftM (Host.load path : m (Option Bytes)))

/-- Asks once more for a passphrase that was typed. -/
def confirmed : Key.Passphrase → Session m Key.Passphrase
  | .terminal (.typed text) none =>
    return .terminal (.typed text) (some (← liftM (Host.ask confirmPrompt : m Key.Reply)))
  | passphrase => return passphrase

/-- The content of a file that a key is read from. -/
def keyFile (failed path : String) : Session m Bytes := do
  let data ← liftM (Host.load path : m (Option Bytes))
  attempt failed (data.elim (.error (Key.Error.unreadable path)) .ok)

/-- Reads a private key.  Its passphrase is looked for only once it is needed. -/
def parseSigningKey (failed path : String) (passphrase : PassphraseOption) (data : Bytes) :
    Session m Key.SigningKey :=
  match Key.SigningKey.parse data .silent with
  | .error .notInteractive => do
    attempt failed (Key.SigningKey.parse data (← passphraseSource path passphrase))
  | result => attempt failed result

def signingKey (passphrase : PassphraseOption) (path : String) : Session m Key.SigningKey := do
  let failed := about "Failed to load key" path
  parseSigningKey failed path passphrase (← keyFile failed path)

def publicKey (path : String) : Session m Key.PublicKey := do
  let failed := about "Failed to load public key" path
  attempt failed (Key.PublicKey.parse (← keyFile failed path))

def sourceKey : KeySource → Session m Key.PublicKey
  | .signing path passphrase => do return (← signingKey passphrase path).publicKey
  | .shared path => publicKey path

/-- The key that unwraps the secret of an encrypted image, if one is given. -/
def unwrapKey (unwrap : UnwrapOption) (passphrase : PassphraseOption) :
    Session m (Option Secret.UnwrapKey) :=
  match unwrap with
  | .none => return none
  | .rsa path => do
    match ← signingKey passphrase path with
    | .rsa key => return some (.rsa key)
    | key =>
      throw [about ("Decryption key must be an RSA key, not " ++ key.algorithm.name) path]
  | .kek path => do
    let data ← content "Failed to read KEK" path
    return some (.kek (← attempt (about "Failed to parse KEK" path) (Secret.parseKek data)))

/-! ## Showing keys -/

/-- What is shown of a key that can sign images; the older format may not know it. -/
def keyReport (key : Key.PublicKey) : Except Key.Error (List Toml.Section) := do
  let tag ← key.signatureTag
  let legacy :=
    match key.legacySignatureTag with
    | .ok tag => [("legacy_signature_type", .text (Hex.prefixed 2 tag.toNat))]
    | .error _ => []
  return [⟨.none,
    [("algorithm", .text key.algorithm.name), ("key_hash", .text (Hex.encode key.keyHash)),
      ("signature_type", .text (Tlv.tagName tag ++ " (" ++ Hex.prefixed 2 tag.toNat ++ ")"))] ++
        legacy⟩]

def showKey (source : KeySource) : Session m Unit := do
  let key ← sourceKey source
  let report ← attempt "Key cannot be used for signing images" (keyReport key)
  output (Toml.renderReport report)

/-! ## Writing keys -/

/-- The name of a kind of key in messages. -/
def KeyKind.name : KeyKind → String
  | rsa2048 => "Rsa2048"
  | rsa3072 => "Rsa3072"
  | ec .p224 => "EcP224"
  | ec .p256 => "EcP256"
  | ed25519 => "Ed25519"

/-- Generates a key, with a given search for primes and a bound on the draws of a scalar. -/
def KeyKind.generateWith (newRsa : Nat → Random Unit Crypto.Rsa.PrivateKey) (draws : Nat) :
    KeyKind → Random Key.Error Key.SigningKey
  | rsa2048 => .rsa <$> (newRsa 2048).mapError fun _ => .generateRsa
  | rsa3072 => .rsa <$> (newRsa 3072).mapError fun _ => .generateRsa
  | ec curve => Key.drawScalar curve draws
  | ed25519 => Key.generateEd25519

/-- Generates a private key and writes it, encrypted unless the passphrase is empty. -/
def generateKey (path : String) (kind : KeyKind) (passphrase : PassphraseOption) :
    Session m Unit := do
  status ("Generating " ++ kind.name ++ " key")
  let newRsa ← liftM (Host.newRsa : m (Nat → Random Unit Crypto.Rsa.PrivateKey))
  let key ← draw ("Failed to generate " ++ kind.name ++ " key")
    (kind.generateWith newRsa Key.maxDraws)
  let failed := about "Failed to write private key" path
  let passphrase ← attempt failed (← confirmed (← passphraseSource path passphrase)).acquire
  let pem ← draw failed (key.toPem passphrase)
  let written ← liftM (Host.store path (Bytes.ofText pem) : m Bool)
  attempt failed (if written then .ok () else .error (Key.Error.unwritable path))

/-- Writes the public key of a source. -/
def extractPublic (source : KeySource) (path : String) : Session m Unit := do
  let key ← sourceKey source
  let pem ← attempt "Failed to encode public key" key.toPem
  save "Failed to write public key" path (Bytes.ofText pem)

end Firmware.Command
