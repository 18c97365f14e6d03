import Firmware.Content
import Firmware.Crypto.Sha256
import Firmware.Flags
import Firmware.Tlv
import Firmware.Version

/-!
# Boot images: the type

An image is a header of 32 bytes, padding up to the header size, a body, and a TLV area behind a
trailer of four bytes.  The header repeats the sizes of the padding and the body, so an `Image` may
disagree with itself; `Firmware.Image.Format` says when it is written.

The content hash covers the header, the padding and the plaintext body, after an optional initial
hash for an image that is chained behind another one.
-/

namespace Firmware

namespace Image

/-- The first word of a header. -/
def magic : UInt32 := 0x96f3b83d

/-- The first word of a trailer. -/
def trailerMagic : UInt16 := 0x6907

/-- The size of the trailer in front of the TLV area. -/
def trailerLength : Nat := 4

/-! ## Flags -/

/-- The image runs at any address. -/
def flagPic : UInt32 := 1

/-- The image is chained behind another one and does not boot on its own. -/
def flagNonBootable : UInt32 := 2

/-- The body is encrypted with a secret of its own. -/
def flagEncrypted : UInt32 := 4

/-- The image is copied to memory before it runs. -/
def flagRamLoad : UInt32 := 0x20

/-- The named flags. -/
def flagTable : FlagTable where
  name := "ImageFlags"
  bits := [("PIC", flagPic), ("NON_BOOTABLE", flagNonBootable), ("ENCRYPTED", flagEncrypted),
    ("RAM_LOAD", flagRamLoad)]

/-! ## Header -/

/-- The fields of a header; the three pads are kept as they are. -/
structure Header where
  headerSize : UInt16
  bodySize : UInt32
  flags : UInt32
  version : Version
  pad1 : UInt32 := 0
  pad2 : UInt16 := 0
  pad3 : UInt32 := 0
deriving DecidableEq, Inhabited

namespace Header

/-- The header as 32 bytes. -/
def toBytes (h : Header) : Bytes :=
  Bytes.ofU32 magic ++ Bytes.ofU32 h.pad1 ++ Bytes.ofU16 h.headerSize ++ Bytes.ofU16 h.pad2 ++
    Bytes.ofU32 h.bodySize ++ Bytes.ofU32 h.flags ++ [h.version.major, h.version.minor] ++
    Bytes.ofU16 h.version.revision ++ Bytes.ofU32 h.version.build ++ Bytes.ofU32 h.pad3

@[simp] theorem length_toBytes (h : Header) : h.toBytes.length = Content.headerLength := by
  simp [toBytes, Content.headerLength]

/-- Reads the magic and the fields of a header off the front. -/
def read? (bs : Bytes) : Option (UInt32 × Header × Bytes) := do
  let (magic, bs) ← Bytes.readU32 bs
  let (pad1, bs) ← Bytes.readU32 bs
  let (headerSize, bs) ← Bytes.readU16 bs
  let (pad2, bs) ← Bytes.readU16 bs
  let (bodySize, bs) ← Bytes.readU32 bs
  let (flags, bs) ← Bytes.readU32 bs
  let (major, bs) ← Bytes.readU8 bs
  let (minor, bs) ← Bytes.readU8 bs
  let (revision, bs) ← Bytes.readU16 bs
  let (build, bs) ← Bytes.readU32 bs
  let (pad3, bs) ← Bytes.readU32 bs
  return (magic, ⟨headerSize, bodySize, flags, ⟨major, minor, revision, build⟩, pad1, pad2, pad3⟩,
    bs)

def isEncrypted (h : Header) : Bool := h.flags &&& flagEncrypted != 0

/-- The header of the plaintext image: the same but for the encryption flag. -/
def decrypted (h : Header) : Header := { h with flags := h.flags &&& ~~~flagEncrypted }

end Header

/-! ## Errors -/

/-- The pieces that an image is written in. -/
inductive Field where
  | content (field : Content.Field)
  | trailer
  | tlv (field : Tlv.Field)
deriving DecidableEq

def Field.label : Field → String
  | .content field => field.label
  | .trailer => "trailer"
  | .tlv field => field.label

/-- What can be wrong with an image. -/
inductive Error where
  | invalidMagic (found : UInt32)
  | content (cause : Content.Error)
  | trailerTruncated
  | invalidTrailerMagic (found : UInt16)
  | tlvTotalMismatch (declared actual : Nat)
  | tlvTotalTooLarge (total : Nat)
  | tlv (cause : Tlv.Error)
  | invalidHashSize (len : Nat)
  | read
  | write (field : Field)
deriving DecidableEq

def Error.message : Error → String
  | .invalidMagic found => "Invalid image magic: " ++ Hex.prefixed 8 found.toNat
  | .content cause => cause.message
  | .trailerTruncated => "Image is too small to contain trailer"
  | .invalidTrailerMagic found => "Invalid trailer magic: " ++ Hex.prefixed 4 found.toNat
  | .tlvTotalMismatch declared actual =>
    s!"Trailer declares {declared} bytes of TLVs, but have {actual}"
  | .tlvTotalTooLarge total => s!"Total TLV size exceeds limit: {total} > 65535"
  | .tlv cause => cause.message
  | .invalidHashSize len => s!"Invalid {Tlv.tagName Tlv.sha256Tag} TLV size: {len}"
  | .read => "Failed to read image data: image"
  | .write field => "Failed to write image data: " ++ field.label

end Image

/-! ## Images -/

/-- A boot image. -/
structure Image where
  header : Image.Header
  /-- The bytes between the fixed header and the body. -/
  pad : Bytes
  body : Bytes
  tlvs : List Tlv
deriving DecidableEq, Inhabited

namespace Image

/-- The content hash of an image whose plaintext body is `body`. -/
def contentHashOf (initial : Option Bytes) (header : Header) (pad body : Bytes) : Bytes :=
  Crypto.sha256 (Content.hashed initial header.toBytes pad body)

/-- The content hash of an image, which means something if its body is plaintext. -/
def contentHash (img : Image) (initial : Option Bytes) : Bytes :=
  contentHashOf initial img.header img.pad img.body

/-- The content hash that the image carries. -/
def hash (img : Image) : Except Error Bytes :=
  match Tlv.findUnique Tlv.sha256Tag img.tlvs with
  | .error e => .error (.tlv e)
  | .ok t =>
    if t.data.length = Content.hashLength then .ok t.data
    else .error (.invalidHashSize t.data.length)

/-- The image with a value added at the end of its TLV area. -/
def addTlv (img : Image) (t : Tlv) : Image := { img with tlvs := img.tlvs ++ [t] }

/-- The image without the values that satisfy `p`, and those values, both in their old order. -/
def withoutTlvs (img : Image) (p : Tlv → Bool) : Image × List Tlv :=
  ({ img with tlvs := img.tlvs.filter fun t => !p t }, img.tlvs.filter p)

/-- The image without the values of a tag, and those values. -/
def withoutTag (img : Image) (tag : UInt8) : Image × List Tlv := img.withoutTlvs (·.tag == tag)

end Image

end Firmware
