import Firmware.Image.Basic

/-!
# The structure of a TLV area

The rules that a boot loader relies on: the content hash comes first, every key hash is followed by
a signature and every signature is preceded by a key hash, no key hash occurs twice, and there is
at most one wrapped secret, at the end.  `violations` lists every breach.
-/

namespace Firmware.Image

/-- A breach of the rules. -/
inductive Violation where
  | noTlvs
  | firstNotHash (tag : UInt8)
  | keyHashNotFollowedBySignature (index : Nat) (next : UInt8)
  | keyHashAtEnd (index : Nat)
  | signatureWithoutKeyHash (index : Nat) (tag : UInt8)
  | duplicateKeyHashes (hashes : List Bytes)
  | multipleSecrets (count : Nat)
  | secretNotLast (index : Nat)
deriving DecidableEq

def Violation.message : Violation → String
  | .noTlvs => "Image has no TLVs"
  | .firstNotHash tag => "TLV #0 is " ++ Tlv.tagName tag ++ ", but must be SHA256"
  | .keyHashNotFollowedBySignature index next =>
    s!"TLV #{index}: KEYHASH is not followed by a signature (found " ++ Tlv.tagName next ++ ")"
  | .keyHashAtEnd index => s!"TLV #{index}: KEYHASH is the last TLV and has no signature"
  | .signatureWithoutKeyHash index tag =>
    s!"TLV #{index}: " ++ Tlv.tagName tag ++ " signature is not preceded by a key hash"
  | .duplicateKeyHashes hashes =>
    "Duplicate key hashes: " ++ ", ".intercalate (hashes.map Hex.encode)
  | .multipleSecrets count =>
    s!"Image has {count} wrapped secret TLVs, but at most one is allowed"
  | .secretNotLast index => s!"TLV #{index}: Wrapped secret must be the last TLV"

/-- The breach of the first rule. -/
def headViolations : List Tlv → List Violation
  | [] => [.noTlvs]
  | t :: _ => if t.tag = Tlv.sha256Tag then [] else [.firstNotHash t.tag]

/-- The breach at the value with place `index`, given the tag before it and the values behind. -/
def pairViolation (index : Nat) (before : Option UInt8) (t : Tlv) (behind : List Tlv) :
    List Violation :=
  if t.tag = Tlv.keyHashTag then
    match behind with
    | [] => [.keyHashAtEnd index]
    | next :: _ =>
      if Tlv.isSignature next.tag then [] else [.keyHashNotFollowedBySignature index next.tag]
  else if Tlv.isSignature t.tag && before != some Tlv.keyHashTag then
    [.signatureWithoutKeyHash index t.tag]
  else []

/-- The breaches of the pairing of key hashes and signatures. -/
def pairViolations (index : Nat) (before : Option UInt8) : List Tlv → List Violation
  | [] => []
  | t :: ts => pairViolation index before t ts ++ pairViolations (index + 1) (some t.tag) ts

/-- The key hashes of an area. -/
def keyHashes (tlvs : List Tlv) : List Bytes :=
  (tlvs.filter (·.tag = Tlv.keyHashTag)).map (·.data)

/-- The byte strings that occur more than once, in ascending order. -/
def repeated (hashes : List Bytes) : List Bytes :=
  (hashes.eraseDups.filter fun h => 1 < hashes.count h).mergeSort Bytes.ble

/-- The breach of the uniqueness of key hashes. -/
def duplicateViolations (tlvs : List Tlv) : List Violation :=
  match repeated (keyHashes tlvs) with
  | [] => []
  | h :: hs => [.duplicateKeyHashes (h :: hs)]

/-- The places of the wrapped secrets. -/
def secretIndices (tlvs : List Tlv) : List Nat :=
  tlvs.zipIdx.filterMap fun (t, i) => if Tlv.isSecret t.tag then some i else none

/-- The breaches of the rules on wrapped secrets. -/
def secretViolations (tlvs : List Tlv) : List Violation :=
  let secrets := secretIndices tlvs
  (if 1 < secrets.length then [.multipleSecrets secrets.length] else []) ++
    (secrets.filter (· + 1 ≠ tlvs.length)).map .secretNotLast

/-- Every breach of the rules in a TLV area. -/
def violations (tlvs : List Tlv) : List Violation :=
  headViolations tlvs ++ pairViolations 0 none tlvs ++ duplicateViolations tlvs ++
    secretViolations tlvs

end Firmware.Image
