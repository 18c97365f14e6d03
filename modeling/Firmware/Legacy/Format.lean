import Firmware.Legacy.Basic

/-!
# Legacy images: the format

`Legacy.parse` reads a complete file and `Legacy.script` lists the writes that produce one.  The
size of the TLV area is compared with the header before the area is read, and an image whose header
disagrees with its values is never written.
-/

namespace Firmware.Legacy

/-! ## Reading -/

/-- The values behind the body, all the way to the end of the data. -/
def readTlvs (declared : UInt16) (area : Bytes) : Except Error (List Tlv) :=
  if declared.toNat ≠ area.length then .error (.tlvSizeMismatch declared.toNat area.length)
  else
    match Tlv.readAll area with
    | .error e => .error (.tlv e)
    | .ok tlvs => .ok tlvs

/-- The image that a complete file holds. -/
def parse (data : Bytes) : Except Error Legacy :=
  match Header.read? data with
  | none => .error (.content (Content.truncated data))
  | some (found, header, rest) =>
    if found ≠ magic then .error (.invalidMagic found)
    else
      match Content.split header.headerSize header.bodySize data.length rest with
      | .error e => .error (.content e)
      | .ok (pad, body, rest) =>
        match readTlvs header.tlvSize rest with
        | .error e => .error e
        | .ok tlvs => .ok ⟨header, pad, body, tlvs⟩

/-- The image that a source holds. -/
def parseFrom (source : Source) : Except Error Legacy :=
  match source.readToEnd with
  | none => .error .read
  | some data => parse data

/-! ## Writing -/

/-- Whether the header fields agree with the contents and every length fits its field. -/
def validate (img : Legacy) : Except Error Unit :=
  match Content.check img.header.headerSize img.header.bodySize img.pad img.body with
  | .error e => .error (.content e)
  | .ok () =>
    if UInt16.size ≤ img.tlvSize then .error (.tlvSizeTooLarge img.tlvSize)
    else if img.tlvSize ≠ img.header.tlvSize.toNat then
      .error (.tlvSizeMismatch img.header.tlvSize.toNat img.tlvSize)
    else .ok ()

/-- The writes that produce the file; nothing is written of an image that is not valid. -/
def script (img : Legacy) : Script Field Error :=
  match img.validate with
  | .error e => .fail e
  | .ok () =>
    ((Tlv.script img.tlvs).map .tlv .tlv).prepend
      [(.content .header, img.header.toBytes), (.content .headerPadding, img.pad),
        (.content .body, img.body)]

def toBytes (img : Legacy) : Except Error Bytes := img.script.toBytes

/-- Writes the file to a store that may run full. -/
def writeTo (img : Legacy) (t : Tally) : Tally × Except Error Unit :=
  img.script.writeTo Error.ofField t

/-- Where the values of an image that was read stand in its file.  Where the body starts is taken
from the header. -/
def tlvOffsets (img : Legacy) : List Nat :=
  (Tlv.offsetsFrom (img.header.headerSize.toNat + img.body.length) img.tlvs).1

/-! ## Diagnostic form -/

def Header.toDebug (h : Header) : String :=
  "LegacyHeader \x7b tlv_size: " ++ toString h.tlvSize.toNat ++ s!", key_id: {h.keyId.toNat}" ++
    s!", pad1: {h.pad1.toNat}, header_size: {h.headerSize.toNat}, pad2: {h.pad2.toNat}" ++
    s!", body_size: {h.bodySize.toNat}, flags: " ++ flagTable.toDebug h.flags ++ ", version: " ++
    h.version.toDebug ++ s!", pad3: {h.pad3.toNat} \x7d"

/-- The diagnostic form of an image, which gives the sizes of padding and body. -/
def toDebug (img : Legacy) : String :=
  "LegacyImage \x7b header: " ++ img.header.toDebug ++ s!", pad: {img.pad.length}" ++
    s!", body: {img.body.length}, tlvs: " ++ Tlv.listDebug img.tlvs ++ " \x7d"

end Firmware.Legacy
