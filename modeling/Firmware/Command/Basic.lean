import Firmware.Command.Options
import Firmware.Key.Signature
import Firmware.Version

/-!
# Requests

What the program can be asked to do, and how a command line asks for it.  A command line that breaks
a rule asks for nothing: an unknown word or option, a value that cannot be read, an option missing
or given twice, or two options that exclude each other.

The two options about logging stand at any level of a command line; commands do not depend on them.
-/

namespace Firmware.Command

/-- Where a passphrase comes from. -/
inductive PassphraseOption where
  | prompt
  | variable (name : String)
  | file (path : String)

/-- What unwraps the secret of an encrypted image. -/
inductive UnwrapOption where
  | none
  | rsa (path : String)
  /-- A key-encryption key in Base64. -/
  | kek (path : String)

/-- The format of a new image, with what only that format has. -/
inductive TargetFormat where
  | current (wrapKey : Option String)
  | legacy (keyId : UInt8) (padding : Key.RsaPadding)

structure Creation where
  input : String
  output : String
  version : Version
  keys : List String
  passphrase : PassphraseOption
  initial : Option String
  headerSize : UInt16
  target : TargetFormat

structure Verification where
  input : String
  keys : List String
  initial : Option String
  unwrap : UnwrapOption
  passphrase : PassphraseOption

inductive KeyKind where
  | rsa2048
  | rsa3072
  | ec (curve : Key.EcCurve)
  | ed25519

inductive KeySource where
  | signing (path : String) (passphrase : PassphraseOption)
  | shared (path : String)

/-- Where a factory binary is taken from and put, and the region to bring up to date. -/
structure Patch where
  input : String
  output : String
  stop : Option Nat
  erase : UInt8

inductive Embedded where
  | signingKey
  | kek

/-- What the program can be asked to do. -/
inductive Request where
  | createImage (creation : Creation)
  | showImage (input : String)
  | verifyImage (verification : Verification)
  | decryptImage (input output : String) (unwrap : UnwrapOption) (passphrase : PassphraseOption)
  | generateKey (output : String) (kind : KeyKind) (passphrase : PassphraseOption)
  | showKey (source : KeySource)
  | extractPublic (source : KeySource) (output : String)
  | split (input areas : String) (device : UInt8) (directory : String) (erase : UInt8)
  | join (directory areas output : String) (erase : UInt8)
  | replace (kind : Embedded) (patch : Patch) (old new : String)
  | showRegion (input : String) (stop : Option Nat)
  | rehash (patch : Patch)

/-! ## Options -/

/-- An option with a value. -/
def valued (name : String) (letter : Option Char := none) : OptionSpec := { name, letter }

def flag (name : String) : OptionSpec := { name, takesValue := false }

/-- The options about logging, with their values. -/
def logging : List (String × List String) :=
  [("log-level", ["trace", "debug", "info", "warn", "error"]), ("log-format", ["short", "long"])]

/-- The options of a level of the command line, and the words behind them. -/
def level? (specs : List OptionSpec) (words : List String) : Option (Options × List String) := do
  let (o, rest) ← Options.parse? (logging.map (fun l => valued l.1) ++ specs) words
  if logging.all fun (name, values) => (o.all name).all (· ∈ values) then some (o, rest) else none

/-- The options of a command, behind which no word may follow. -/
def only? (specs : List OptionSpec) (words : List String) : Option Options := do
  match ← level? specs words with
  | (o, []) | (o, ["--"]) => some o
  | _ => none

def inputSpec : OptionSpec := valued "input" (some 'i')
def outputSpec : OptionSpec := valued "output" (some 'o')
def areasSpec : OptionSpec := valued "areas" (some 'a')
def endSpec : OptionSpec := valued "end"
def eraseSpec : OptionSpec := valued "erase-val"
def keysSpec : OptionSpec := { name := "key", letter := some 'k', repeats := true }
def passphraseSpecs : List OptionSpec := [valued "pass-env-var", valued "pass-file"]
def unwrapSpecs : List OptionSpec := [valued "decrypt-key", valued "kek"]
def sourceSpecs : List OptionSpec :=
  [valued "key" (some 'k'), valued "public-key" (some 'p')] ++ passphraseSpecs
def patchSpecs : List OptionSpec := [inputSpec, outputSpec, endSpec, eraseSpec]

namespace Options

/-- A path that must be given. -/
def path (o : Options) (name : String) : Option String := o.required name path?

def erase (o : Options) : Option UInt8 :=
  (o.getD "erase-val" (number? UInt8.size) 0xff).map UInt8.ofNat

def stop (o : Options) : Option (Option Nat) := o.optional "end" (number? UInt64.size)

def passphrase (o : Options) : Option PassphraseOption := do
  match ← o.optional "pass-env-var" text?, ← o.optional "pass-file" path? with
  | none, none => some .prompt
  | some name, none => some (.variable name)
  | none, some path => some (.file path)
  | some _, some _ => none

/-- The key for an encrypted image. -/
def unwrap (o : Options) : Option UnwrapOption := do
  match ← o.optional "decrypt-key" path?, ← o.optional "kek" path? with
  | none, none => some .none
  | some path, none => some (.rsa path)
  | none, some path => some (.kek path)
  | some _, some _ => none

def keys (o : Options) : Option (List String) := (o.all "key").mapM path?

/-- The source of a public key; a public key has no passphrase. -/
def keySource (o : Options) : Option KeySource := do
  match ← o.optional "key" path?, ← o.optional "public-key" path?, ← o.passphrase with
  | some path, none, passphrase => some (.signing path passphrase)
  | none, some path, .prompt => some (.shared path)
  | _, _, _ => none

/-- The format of a new image and what goes with it. -/
def target (o : Options) : Option TargetFormat := do
  let wrapKey ← o.optional "enc-key" path?
  let keyId ← o.optional "key-id" byte?
  match o.has "legacy", wrapKey, keyId, o.has "pkcs1" with
  | true, none, keyId, pkcs1 =>
    some (.legacy (keyId.getD 0) (if pkcs1 then .pkcs1 else .pss))
  | false, wrapKey, none, false => some (.current wrapKey)
  | _, _, _, _ => none

def patch (o : Options) : Option Patch := do
  return { input := ← o.path "input", output := ← o.path "output", stop := ← o.stop,
           erase := ← o.erase }

end Options

/-! ## Command lines -/

def keyKind? : String → Option KeyKind
  | "rsa2048" => some .rsa2048
  | "rsa3072" => some .rsa3072
  | "p224" => some (.ec .p224)
  | "p256" => some (.ec .p256)
  | "ed25519" => some .ed25519
  | _ => none

def imageRequest? : List String → Option Request
  | "create" :: words => do
    let o ← only?
      ([inputSpec, outputSpec, valued "version", keysSpec, valued "enc-key",
        valued "initial-hash", valued "header-size", flag "legacy", valued "key-id",
        flag "pkcs1"] ++ passphraseSpecs) words
    return .createImage
      { input := ← o.path "input", output := ← o.path "output",
        version := ← o.getD "version" Version.parse? ⟨0, 0, 0, 0⟩, keys := ← o.keys,
        passphrase := ← o.passphrase, initial := ← o.optional "initial-hash" text?,
        headerSize := UInt16.ofNat (← o.getD "header-size" (number? UInt16.size) 32),
        target := ← o.target }
  | "info" :: words => do return .showImage (← (← only? [inputSpec] words).path "input")
  | "verify" :: words => do
    let o ← only?
      ([inputSpec, keysSpec, valued "initial-hash"] ++ unwrapSpecs ++ passphraseSpecs) words
    return .verifyImage
      { input := ← o.path "input", keys := ← o.keys,
        initial := ← o.optional "initial-hash" text?, unwrap := ← o.unwrap,
        passphrase := ← o.passphrase }
  | "decrypt" :: words => do
    let o ← only? ([inputSpec, outputSpec] ++ unwrapSpecs ++ passphraseSpecs) words
    return .decryptImage (← o.path "input") (← o.path "output") (← o.unwrap) (← o.passphrase)
  | _ => none

def keyRequest? : List String → Option Request
  | "generate" :: words => do
    let o ← only? ([outputSpec, valued "type" (some 't')] ++ passphraseSpecs) words
    return .generateKey (← o.path "output") (← o.getD "type" keyKind? (.ec .p256))
      (← o.passphrase)
  | "info" :: words => do return .showKey (← (← only? sourceSpecs words).keySource)
  | "extract-public" :: words => do
    let o ← only? (outputSpec :: sourceSpecs) words
    return .extractPublic (← o.keySource) (← o.path "output")
  | _ => none

def replaceRequest? (kind : Embedded) (words : List String) : Option Request := do
  let o ← only? (patchSpecs ++ [valued "old", valued "new"]) words
  return .replace kind (← o.patch) (← o.path "old") (← o.path "new")

def factoryRequest? : List String → Option Request
  | "split" :: words => do
    let o ← only? [inputSpec, areasSpec, valued "device" (some 'd'), valued "output-dir", eraseSpec]
      words
    return .split (← o.path "input") (← o.path "areas")
      (UInt8.ofNat (← o.getD "device" (number? UInt8.size) 0)) (← o.path "output-dir") (← o.erase)
  | "join" :: words => do
    let o ← only? [valued "input-dir", areasSpec, outputSpec, eraseSpec] words
    return .join (← o.path "input-dir") (← o.path "areas") (← o.path "output") (← o.erase)
  | "replace-isk" :: words => replaceRequest? .signingKey words
  | "replace-kek" :: words => replaceRequest? .kek words
  | _ => none

def regionRequest? : List String → Option Request
  | "info" :: words => do
    let o ← only? [inputSpec, endSpec] words
    return .showRegion (← o.path "input") (← o.stop)
  | "rehash" :: words => do return .rehash (← (← only? patchSpecs words).patch)
  | _ => none

/-- Reads a command line, without the name of the program. -/
def Request.parse? (words : List String) : Option Request := do
  let (_, rest) ← level? [] words
  match rest with
  | "image" :: words => imageRequest? (← level? [] words).2
  | "key" :: words => keyRequest? (← level? [] words).2
  | "mfg" :: words => factoryRequest? (← level? [] words).2
  | "mmr" :: words => regionRequest? (← level? [] words).2
  | _ => none

end Firmware.Command
