import Firmware.Content
import Firmware.Crypto.Sha256
import Firmware.Flags
import Firmware.Tlv
import Firmware.Version

/-!
# Legacy images: the type

The first image format.  It has no trailer: the size of the TLV area is a header field, so the
content hash covers it.  There is at most one signature, and the flags say which algorithm made it.
-/

namespace Firmware

namespace Legacy

/-- The first word of a header. -/
def magic : UInt32 := 0x96f3b83c

/-! ## Tags -/

def sha256Tag : UInt8 := 1

def rsa2048Tag : UInt8 := 2

def ecdsa224Tag : UInt8 := 3

def ecdsa256Tag : UInt8 := 4

def tagName (tag : UInt8) : String :=
  (([(sha256Tag, "SHA256"), (rsa2048Tag, "RSA2048"), (ecdsa224Tag, "ECDSA224"),
    (ecdsa256Tag, "ECDSA256")] : List (UInt8 × String)).lookup tag).getD "UNKNOWN"

/-! ## Flags -/

/-- The image runs at any address. -/
def flagPic : UInt32 := 0x01

/-- The image has a content hash. -/
def flagSha256 : UInt32 := 0x02

/-- The image is signed with RSA and the older padding. -/
def flagPkcs15 : UInt32 := 0x04

/-- The image is signed on P-224. -/
def flagEcdsa224 : UInt32 := 0x08

/-- The image is chained behind another one and does not boot on its own. -/
def flagNonBootable : UInt32 := 0x10

/-- The image is signed on P-256. -/
def flagEcdsa256 : UInt32 := 0x20

/-- The image is signed with RSA and probabilistic padding. -/
def flagPss : UInt32 := 0x40

/-- The named flags. -/
def flagTable : FlagTable where
  name := "LegacyFlags"
  bits := [("PIC", flagPic), ("SHA256", flagSha256), ("PKCS15_RSA2048_SHA256", flagPkcs15),
    ("ECDSA224_SHA256", flagEcdsa224), ("NON_BOOTABLE", flagNonBootable),
    ("ECDSA256_SHA256", flagEcdsa256), ("PKCS1_PSS_RSA2048_SHA256", flagPss)]

/-! ## Header -/

/-- The fields of a header; the three pads are kept as they are. -/
structure Header where
  /-- The size of the TLV area. -/
  tlvSize : UInt16
  keyId : UInt8 := 0
  pad1 : UInt8 := 0
  headerSize : UInt16
  pad2 : UInt16 := 0
  bodySize : UInt32
  flags : UInt32
  version : Version
  pad3 : UInt32 := 0
deriving DecidableEq, Inhabited

namespace Header

/-- The header as 32 bytes. -/
def toBytes (h : Header) : Bytes :=
  Bytes.ofU32 magic ++ Bytes.ofU16 h.tlvSize ++ [h.keyId, h.pad1] ++ Bytes.ofU16 h.headerSize ++
    Bytes.ofU16 h.pad2 ++ Bytes.ofU32 h.bodySize ++ Bytes.ofU32 h.flags ++
    [h.version.major, h.version.minor] ++ Bytes.ofU16 h.version.revision ++
    Bytes.ofU32 h.version.build ++ Bytes.ofU32 h.pad3

@[simp] theorem length_toBytes (h : Header) : h.toBytes.length = Content.headerLength := by
  simp [toBytes, Content.headerLength]

/-- Reads the magic and the fields of a header off the front. -/
def read? (bs : Bytes) : Option (UInt32 × Header × Bytes) := do
  let (magic, bs) ← Bytes.readU32 bs
  let (tlvSize, bs) ← Bytes.readU16 bs
  let (keyId, bs) ← Bytes.readU8 bs
  let (pad1, bs) ← Bytes.readU8 bs
  let (headerSize, bs) ← Bytes.readU16 bs
  let (pad2, bs) ← Bytes.readU16 bs
  let (bodySize, bs) ← Bytes.readU32 bs
  let (flags, bs) ← Bytes.readU32 bs
  let (major, bs) ← Bytes.readU8 bs
  let (minor, bs) ← Bytes.readU8 bs
  let (revision, bs) ← Bytes.readU16 bs
  let (build, bs) ← Bytes.readU32 bs
  let (pad3, bs) ← Bytes.readU32 bs
  return (magic,
    ⟨tlvSize, keyId, pad1, headerSize, pad2, bodySize, flags, ⟨major, minor, revision, build⟩,
      pad3⟩,
    bs)

end Header

/-! ## Errors -/

/-- The pieces that an image is written in. -/
inductive Field where
  | content (field : Content.Field)
  | tlv (field : Tlv.Field)
deriving DecidableEq

/-- What can be wrong with a legacy image. -/
inductive Error where
  | invalidMagic (found : UInt32)
  | content (cause : Content.Error)
  | tlvSizeMismatch (declared actual : Nat)
  | tlvSizeTooLarge (total : Nat)
  | invalidHashSize (len : Nat)
  /-- The TLV area is malformed or lacks a value, or the output ran full in it. -/
  | tlv (cause : Tlv.Error)
  | read
  /-- The output ran full before the TLV area. -/
  | write (field : Content.Field)
deriving DecidableEq

/-- The text of an error, without that of its cause in the TLV area. -/
def Error.message : Error → String
  | .invalidMagic found => "Invalid legacy image magic: " ++ Hex.prefixed 8 found.toNat
  | .content cause => cause.message
  | .tlvSizeMismatch declared actual =>
    s!"Header declares {declared} bytes of TLVs, but have {actual}"
  | .tlvSizeTooLarge total => s!"Total TLV size exceeds limit: {total} > 65535"
  | .invalidHashSize len => s!"Invalid SHA256 TLV size: {len}"
  | .tlv _ => "TLV error"
  | .read => "Failed to read legacy image data: image"
  | .write field => "Failed to write legacy image data: " ++ field.label

/-- The texts of an error and of its cause. -/
def Error.texts (e : Error) : List String :=
  e.message ::
    match e with
    | .tlv cause => [cause.message]
    | _ => []

/-- The error for a piece that did not fit. -/
def Error.ofField : Field → Error
  | .content field => .write field
  | .tlv field => .tlv (.write field)

end Legacy

/-! ## Images -/

/-- A legacy image. -/
structure Legacy where
  header : Legacy.Header
  /-- The bytes between the fixed header and the body. -/
  pad : Bytes
  body : Bytes
  tlvs : List Tlv
deriving DecidableEq, Inhabited

namespace Legacy

/-- The content hash that belongs to the image.  It covers the size of the TLV area. -/
def contentHash (img : Legacy) (initial : Option Bytes) : Bytes :=
  Crypto.sha256 (Content.hashed initial img.header.toBytes img.pad img.body)

/-- The content hash that the image carries. -/
def hash (img : Legacy) : Except Error Bytes :=
  match Tlv.findUnique sha256Tag img.tlvs with
  | .error e => .error (.tlv e)
  | .ok t =>
    if t.data.length = Content.hashLength then .ok t.data
    else .error (.invalidHashSize t.data.length)

def tlvSize (img : Legacy) : Nat := Tlv.areaSize img.tlvs

end Legacy

end Firmware
