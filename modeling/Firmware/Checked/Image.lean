import Firmware.Checked.Basic
import Firmware.Image.Format
import Firmware.Image.Structure
import Firmware.Legacy.Format

/-!
# Images by position

Reading, checking and writing images of both formats with checked accesses.  A value in a TLV area
is looked up by its position, the structure rules look at the position before a value and at the
last one, and a header is copied to a buffer of its size before it is hashed.

Fields at fixed places are read as in `Image.parse` and `Legacy.parse`: a header or a trailer is
taken off the front as a whole, or not at all.
-/

namespace Firmware.Checked

/-! ## Content -/

/-- Padding, body and rest of what follows the fixed header in a buffer of `available` bytes. -/
def splitContent (headerSize : UInt16) (bodySize : UInt32) (available : Nat) (behind : Bytes) :
    Run Content.Error (Bytes × Bytes × Bytes) :=
  if headerSize.toNat < Content.headerLength then throw (.headerSizeTooSmall headerSize)
  else if available < headerSize.toNat then throw (.headerSizeTooLarge headerSize available)
  else do
    let padSize ← access (sub headerSize.toNat Content.headerLength)
    let (pad, behind) ← access (splitAt behind padSize)
    if behind.length < bodySize.toNat then throw (.bodySizeTooLarge bodySize behind.length)
    else
      let (body, behind) ← access (splitAt behind bodySize.toNat)
      return (pad, body, behind)

/-- Whether the sizes in a header are those of the padding and the body. -/
def checkContent (headerSize : UInt16) (bodySize : UInt32) (pad body : Bytes) :
    Run Content.Error Unit :=
  if headerSize.toNat < Content.headerLength then throw (.headerSizeTooSmall headerSize)
  else do
    let expected ← access (sub headerSize.toNat Content.headerLength)
    if pad.length ≠ expected then throw (.paddingSizeMismatch expected pad.length)
    else if bodySize.toNat ≠ body.length then throw (.bodySizeMismatch bodySize body.length)
    else return ()

/-- The content hash, with the header in a buffer of its own. -/
def contentHash (initial : Option Bytes) (header pad body : Bytes) : Except Fault Bytes := do
  let buffer ← copy (Bytes.zeros Content.headerLength) header
  return Crypto.sha256 (Content.hashed initial buffer pad body)

/-! ## Values -/

/-- A tag, a pad byte and a length of two bytes. -/
def tlvKind : ValueKind Tlv Tlv.Error where
  headerSize := 4
  headerSize_pos := Nat.succ_pos 3
  header?
    | tag :: pad :: low :: high :: behind =>
      some (Bytes.toNatLE [low, high], fun data => ⟨tag, pad, data⟩, behind)
    | _ => none
  headerTruncated := .headerTruncated
  dataTruncated := .dataTruncated

/-- The position of the only value with a tag. -/
def findUnique (tag : UInt8) (tlvs : List Tlv) : Except Tlv.Error Nat :=
  match Tlv.indicesOf tag tlvs with
  | [i] => .ok i
  | found => .error (.notUnique (Tlv.tagName tag) found.length)

/-! ## Boot images -/

/-- The trailer and the values behind it. -/
def readTlvs (bs : Bytes) : Run Image.Error (List Tlv) :=
  match Image.readTrailer? bs with
  | none => throw .trailerTruncated
  | some (magic, total, area) =>
    if magic ≠ Image.trailerMagic then throw (.invalidTrailerMagic magic)
    else do
      let tlvs ← (readValues tlvKind area [] 0).adapt .tlv
      let actual := Image.trailerLength + area.length
      if total.toNat ≠ actual then throw (.tlvTotalMismatch total.toNat actual) else return tlvs

def parseImage (data : Bytes) : Run Image.Error Image :=
  match Image.Header.read? data with
  | none => throw (.content (Content.truncated data))
  | some (found, header, behind) =>
    if found ≠ Image.magic then throw (.invalidMagic found)
    else do
      let (pad, body, behind) ←
        (splitContent header.headerSize header.bodySize data.length behind).adapt .content
      let tlvs ← readTlvs behind
      return ⟨header, pad, body, tlvs⟩

/-- The bytes of an image that has passed the check of its sizes. -/
def imageToBytes (img : Image) : Run Image.Error Bytes := do
  (checkContent img.header.headerSize img.header.bodySize img.pad img.body).adapt .content
  if UInt16.size ≤ img.tlvTotalSize then throw (.tlvTotalTooLarge img.tlvTotalSize)
  else
    let area ← (ofResult (Tlv.script img.tlvs).toBytes).adapt .tlv
    return img.header.toBytes ++ img.pad ++ img.body ++ img.trailerBytes ++ area

/-! ## The structure rules -/

/-- Whether the value before a position is a key hash. -/
def followsKeyHash (tlvs : List Tlv) : Nat → Except Fault Bool
  | 0 => return false
  | i + 1 => return (← index tlvs i).tag == Tlv.keyHashTag

/-- The breach at the value `t`, which is at position `i`. -/
def pairViolation (tlvs : List Tlv) (t : Tlv) (i : Nat) : Except Fault (List Image.Violation) :=
  if t.tag = Tlv.keyHashTag then
    match tlvs[i + 1]? with
    | none => return [.keyHashAtEnd i]
    | some next =>
      return if Tlv.isSignature next.tag then [] else [.keyHashNotFollowedBySignature i next.tag]
  else if Tlv.isSignature t.tag then
    return if ← followsKeyHash tlvs i then [] else [.signatureWithoutKeyHash i t.tag]
  else return []

/-- The breach at a wrapped secret. -/
def secretViolation (tlvs : List Tlv) (i : Nat) : Except Fault (List Image.Violation) := do
  let last ← sub tlvs.length 1
  return if i ≠ last then [.secretNotLast i] else []

/-- Every breach of the structure rules. -/
def violations (tlvs : List Tlv) : Except Fault (List Image.Violation) := do
  let pairs ← tlvs.zipIdx.mapM fun e => pairViolation tlvs e.1 e.2
  let secrets := Image.secretIndices tlvs
  let last ← secrets.mapM (secretViolation tlvs)
  return Image.headViolations tlvs ++ pairs.flatten ++ Image.duplicateViolations tlvs ++
    ((if 1 < secrets.length then [.multipleSecrets secrets.length] else []) ++ last.flatten)

/-! ## Images of the older format -/

def parseLegacy (data : Bytes) : Run Legacy.Error Legacy :=
  match Legacy.Header.read? data with
  | none => throw (.content (Content.truncated data))
  | some (found, header, behind) =>
    if found ≠ Legacy.magic then throw (.invalidMagic found)
    else do
      let (pad, body, behind) ←
        (splitContent header.headerSize header.bodySize data.length behind).adapt .content
      if header.tlvSize.toNat ≠ behind.length then
        throw (.tlvSizeMismatch header.tlvSize.toNat behind.length)
      else
        let tlvs ← (readValues tlvKind behind [] 0).adapt .tlv
        return ⟨header, pad, body, tlvs⟩

/-- The content hash that the image carries. -/
def legacyHash (img : Legacy) : Run Legacy.Error Bytes := do
  let i ← (ofResult (findUnique Legacy.sha256Tag img.tlvs)).adapt .tlv
  let t ← access (index img.tlvs i)
  if t.data.length ≠ Content.hashLength then throw (.invalidHashSize t.data.length)
  else return t.data

end Firmware.Checked
