import Firmware.Command.Keys
import Firmware.Image.Format

/-!
# Commands about images

The commands that create, show, verify and decrypt images of both formats.  A file is of the older
format if it starts with that format's magic number.

Verification goes from the structure over the hash to the signatures, and stops at the first part
that fails.  The hash of an encrypted image can only be checked with a key; without one that part is
left out.  Every given key must have signed.
-/

namespace Firmware.Command

variable {m : Type → Type} [Monad m] [Host m]

/-- Whether a file is of the older format. -/
def isLegacy (data : Bytes) : Bool := data.take 4 == Bytes.ofU32 Legacy.magic

/-- The bytes that a hexadecimal text on the command line denotes. -/
def hexArgument : Option String → Session m (Option Bytes)
  | none => return none
  | some s => do return some (← demand ("Invalid hex string: " ++ Text.quoted s) (Hex.decode? s))

/-! ## Creating and decrypting -/

/-- The file of a new image, with its hash printed. -/
def created (c : Creation) (body : Bytes) (keys : List Key.SigningKey) (initial : Option Bytes) :
    Session m Bytes :=
  match c.target with
  | .legacy keyId padding => do
    let plan : Build.LegacyPlan :=
      { body, version := c.version, keys, keyId, initial, headerSize := c.headerSize, padding }
    let img ← draw "Failed to create legacy image" plan.build
    status ("Legacy image hash: " ++ Hex.encode (← check img.hash))
    attempt "Failed to serialize legacy image" img.toBytes
  | .current wrapKey => do
    let wrapKey ← wrapKey.mapM (content "Failed to read encryption key")
    let plan : Build.Plan :=
      { body, version := c.version, keys, wrapKey, initial, headerSize := c.headerSize }
    let img ← draw "Failed to create image" plan.build
    status ("Image hash: " ++ Hex.encode (← check img.hash))
    attempt "Failed to serialize image" img.toBytes

def createImage (c : Creation) : Session m Unit := do
  let body ← content "Failed to read image body" c.input
  let keys ← c.keys.mapM (signingKey c.passphrase)
  let initial ← hexArgument c.initial
  save "Failed to write image" c.output (← created c body keys initial)

/-- The image in a file, which must be of the current format. -/
def readImage (path : String) : Session m Image := do
  let present ← liftM (Host.isPresent path : m Bool)
  demand (about "Failed to open for reading" path) (if present then some () else none)
  let source : Source :=
    match ← liftM (Host.load path : m (Option Bytes)) with
    | some data => { data, limit := none }
    | none => { data := [], limit := some 0 }
  attempt (about "Failed to read image" path) (Image.parseFrom source)

def decryptImage (input path : String) (unwrap : UnwrapOption) (passphrase : PassphraseOption) :
    Session m Unit := do
  let img ← readImage input
  let key ← demand "A decryption key is required" (← unwrapKey unwrap passphrase)
  let plain ← attempt "Failed to decrypt image" (img.decrypt key)
  save "Failed to write image" path (← attempt "Failed to serialize decrypted image" plain.toBytes)

/-! ## Showing -/

def versionEntries (v : Version) : List (String × Toml.Plain) :=
  [("major", .number v.major.toNat), ("minor", .number v.minor.toNat),
    ("revision", .number v.revision.toNat), ("build_num", .number v.build.toNat)]

/-- What is shown of the values in a TLV area. -/
def tlvEntries (name : UInt8 → String) (offsets : List Nat) (tlvs : List Tlv) :
    List (List (String × Toml.Plain)) :=
  (tlvs.zip offsets).zipIdx.map fun ((t, offset), index) =>
    [("index", .number index), ("offset", .number offset), ("name", .text (name t.tag)),
      ("tlv_type", .number t.tag.toNat), ("len", .number t.data.length),
      ("data", .text (Hex.encode t.data))]

def imageReport (img : Image) : List Toml.Section :=
  let h := img.header
  let o := img.offsets
  let (alone, tlvs) := Toml.rows "tlvs" (tlvEntries Tlv.tagName o.tlvs img.tlvs)
  [⟨.none, alone⟩,
    ⟨.table ["header"],
      [("header_size", .number h.headerSize.toNat), ("body_size", .number h.bodySize.toNat),
        ("flags", .text (Image.flagTable.toText h.flags)), ("pad1", .number h.pad1.toNat),
        ("pad2", .number h.pad2.toNat), ("pad3", .number h.pad3.toNat)]⟩,
    ⟨.table ["header", "version"], versionEntries h.version⟩,
    ⟨.table ["offsets"],
      [("header", .number o.header), ("body", .number o.body), ("trailer", .number o.trailer),
        ("tlvs", .numbers o.tlvs), ("total_size", .number o.totalSize)]⟩] ++ tlvs

def legacyReport (img : Legacy) : List Toml.Section :=
  let h := img.header
  let (alone, tlvs) := Toml.rows "tlvs" (tlvEntries Legacy.tagName img.tlvOffsets img.tlvs)
  [⟨.none, alone⟩,
    ⟨.table ["header"],
      [("tlv_size", .number h.tlvSize.toNat), ("key_id", .number h.keyId.toNat),
        ("pad1", .number h.pad1.toNat), ("header_size", .number h.headerSize.toNat),
        ("pad2", .number h.pad2.toNat), ("body_size", .number h.bodySize.toNat),
        ("flags", .text (Legacy.flagTable.toText h.flags)), ("pad3", .number h.pad3.toNat)]⟩,
    ⟨.table ["header", "version"], versionEntries h.version⟩] ++ tlvs

def showImage (path : String) : Session m Unit := do
  let data ← content "Failed to read image" path
  if isLegacy data then
    let img ← attempt (about "Failed to parse legacy image" path) (Legacy.parse data)
    output (Toml.renderReport (legacyReport img))
  else
    let img ← attempt (about "Failed to parse image" path) (Image.parse data)
    output (Toml.renderReport (imageReport img))

/-! ## Verifying -/

/-- Verifies an image of the older format with at most one key. -/
def verifyLegacy (path : String) (data : Bytes) (initial : Option Bytes)
    (keys : List Key.PublicKey) : Session m Unit := do
  let img ← attempt (about "Failed to parse legacy image" path) (Legacy.parse data)
  let key ←
    match keys with
    | [] => pure none
    | [key] => pure (some key)
    | _ => throw ["Legacy images have at most one signature"]
  attempt "Failed to verify legacy image" (Verify.checkLegacy img initial key)
  status "Successfully verified legacy image"

/-- Prints every breach of the structure rules and fails if there is one. -/
def verifyStructure (img : Image) : Session m Unit := do
  let violations := Image.violations img.tlvs
  violations.forM fun v => warning v.message
  if !violations.isEmpty then throw [s!"Image has {violations.length} structural problems"]

/-- Checks the hash, unless the image is encrypted and there is no key. -/
def verifyHash (img : Image) (initial : Option Bytes) (key : Option Secret.UnwrapKey) :
    Session m Unit := do
  if img.header.isEncrypted && key.isNone then
    warning "Image is encrypted. Skipping hash check because no decryption key was given"
  else
    attempt "Failed to verify image hash" (Verify.checkHash img initial key)
    status "Image hash is valid"

/-- The paths of the keys that are not at one of the places. -/
def missingSigners (paths : List String) (places : List Nat) : List String :=
  (paths.zipIdx.filter fun (_, i) => i ∉ places).map (·.1)

/-- Checks the signatures; each of the keys, which come from the given paths, must have signed. -/
def verifySignatures (img : Image) (keys : List Key.PublicKey) (paths : List String) :
    Session m Unit := do
  let places ← attempt "Failed to verify signatures" (Verify.checkSignatures img keys)
  let missing := missingSigners paths places
  if !missing.isEmpty then
    throw ["Image is not signed by: " ++ ", ".intercalate (missing.map Text.quotedPath)]
  status s!"Successfully verified image with {places.length} key(s)"

def verifyImage (v : Verification) : Session m Unit := do
  let data ← content "Failed to read image" v.input
  let initial ← hexArgument v.initial
  let keys ← v.keys.mapM publicKey
  if isLegacy data then
    verifyLegacy v.input data initial keys
  else
    let img ← attempt (about "Failed to parse image" v.input) (Image.parse data)
    verifyStructure img
    let key ← unwrapKey v.unwrap v.passphrase
    verifyHash img initial key
    verifySignatures img keys v.keys

end Firmware.Command
