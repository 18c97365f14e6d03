import Firmware.Image.Basic

/-!
# Boot images: the format

`Image.parse` reads a complete file and `Image.script` lists the writes that produce one.  The two
are meant to be inverse to each other: the parser keeps every byte that the writer does not
recompute, and the writer refuses the images that no file denotes.
-/

namespace Firmware.Image

/-! ## Reading -/

/-- The trailer's magic, its length field and the TLV area behind it. -/
def readTrailer? (bs : Bytes) : Option (UInt16 × UInt16 × Bytes) := do
  let (magic, bs) ← Bytes.readU16 bs
  let (total, bs) ← Bytes.readU16 bs
  return (magic, total, bs)

/-- The values behind the body, all the way to the end of the data.  They are read before their
total size is compared with the trailer. -/
def readTlvs (bs : Bytes) : Except Error (List Tlv) :=
  match readTrailer? bs with
  | none => .error .trailerTruncated
  | some (magic, total, area) =>
    if magic ≠ trailerMagic then .error (.invalidTrailerMagic magic)
    else
      match Tlv.readAll area with
      | .error e => .error (.tlv e)
      | .ok tlvs =>
        if total.toNat = trailerLength + area.length then .ok tlvs
        else .error (.tlvTotalMismatch total.toNat (trailerLength + area.length))

/-- The image that a complete file holds. -/
def parse (data : Bytes) : Except Error Image :=
  match Header.read? data with
  | none => .error (.content (Content.truncated data))
  | some (found, header, rest) =>
    if found ≠ magic then .error (.invalidMagic found)
    else
      match Content.split header.headerSize header.bodySize data.length rest with
      | .error e => .error (.content e)
      | .ok (pad, body, rest) =>
        match readTlvs rest with
        | .error e => .error e
        | .ok tlvs => .ok ⟨header, pad, body, tlvs⟩

/-- The image that a source holds. -/
def parseFrom (source : Source) : Except Error Image :=
  match source.readToEnd with
  | none => .error .read
  | some data => parse data

/-! ## Sizes and offsets -/

/-- The size of the trailer and the TLV area. -/
def tlvTotalSize (img : Image) : Nat := trailerLength + Tlv.areaSize img.tlvs

def totalSize (img : Image) : Nat :=
  Content.headerLength + img.pad.length + img.body.length + img.tlvTotalSize

/-- Where the parts of an image stand in its file. -/
structure Offsets where
  header : Nat
  body : Nat
  trailer : Nat
  tlvs : List Nat
  totalSize : Nat
deriving DecidableEq

def offsets (img : Image) : Offsets :=
  let body := Content.headerLength + img.pad.length
  let trailer := body + img.body.length
  let (tlvs, stop) := Tlv.offsetsFrom (trailer + trailerLength) img.tlvs
  ⟨0, body, trailer, tlvs, stop⟩

/-! ## Writing -/

/-- Whether the header fields agree with the contents and every length fits its field. -/
def validate (img : Image) : Except Error Unit :=
  match Content.check img.header.headerSize img.header.bodySize img.pad img.body with
  | .error e => .error (.content e)
  | .ok () =>
    if img.tlvTotalSize < UInt16.size then .ok () else .error (.tlvTotalTooLarge img.tlvTotalSize)

/-- The four bytes of the trailer. -/
def trailerBytes (img : Image) : Bytes :=
  Bytes.ofU16 trailerMagic ++ Bytes.ofNatLE 2 img.tlvTotalSize

/-- The writes that produce the file; nothing is written of an image that is not valid. -/
def script (img : Image) : Script Field Error :=
  match img.validate with
  | .error e => .fail e
  | .ok () =>
    ((Tlv.script img.tlvs).map .tlv .tlv).prepend
      [(.content .header, img.header.toBytes), (.content .headerPadding, img.pad),
        (.content .body, img.body), (.trailer, img.trailerBytes)]

def toBytes (img : Image) : Except Error Bytes := img.script.toBytes

/-- Writes the file to a store that may run full. -/
def writeTo (img : Image) (t : Tally) : Tally × Except Error Unit := img.script.writeTo .write t

/-! ## Diagnostic form -/

def Header.toDebug (h : Header) : String :=
  "ImageHeader \x7b header_size: " ++ toString h.headerSize.toNat ++
    s!", body_size: {h.bodySize.toNat}, flags: " ++ flagTable.toDebug h.flags ++ ", version: " ++
    h.version.toDebug ++ s!", pad1: {h.pad1.toNat}, pad2: {h.pad2.toNat}" ++
    s!", pad3: {h.pad3.toNat} \x7d"

/-- The diagnostic form of an image, which gives the sizes of padding and body. -/
def toDebug (img : Image) : String :=
  "Image \x7b header: " ++ img.header.toDebug ++ s!", pad: {img.pad.length}" ++
    s!", body: {img.body.length}, tlvs: " ++ Tlv.listDebug img.tlvs ++ " \x7d"

end Firmware.Image
