import Firmware.Text.Blank
import Firmware.Text.Quoted

/-!
# Version numbers

A version is `major.minor.revision.build` with the widths of the image header.  `Version.parse`
reads one to four decimal pieces, a missing piece is zero; `Version.toText` writes all four.  A
piece is read as a number of 64 bits, whatever its place, and narrowed afterwards.
-/

namespace Firmware

/-- A version as the headers of both image formats hold it. -/
structure Version where
  major : UInt8
  minor : UInt8
  revision : UInt16
  build : UInt32
deriving DecidableEq, Inhabited

namespace Version

/-- The text `major.minor.revision.build`. -/
def toText (v : Version) : String :=
  ".".intercalate
    [toString v.major.toNat, toString v.minor.toNat, toString v.revision.toNat,
      toString v.build.toNat]

def toDebug (v : Version) : String :=
  "ImageVersion \x7b major: " ++ toString v.major.toNat ++ s!", minor: {v.minor.toNat}" ++
    s!", revision: {v.revision.toNat}, build_num: {v.build.toNat} \x7d"

/-! ## Reading -/

/-- What can be wrong with the text of a version. -/
inductive Error where
  | invalid (text : String)
deriving DecidableEq

/-- The text of the error for a text that denotes no version. -/
def invalidMessage (s : String) : String := "Invalid version string: " ++ Text.quoted s

def Error.message : Error → String
  | .invalid text => invalidMessage text

/-- The value of a decimal digit. -/
def digit? (c : Char) : Option Nat :=
  if '0' ≤ c ∧ c ≤ '9' then some (c.toNat - 48) else none

/-- A number with one more digit; none if the character is no digit, or the number outgrows 64
bits. -/
def push? (n : UInt64) (c : Char) : Option UInt64 := do
  let digit ← digit? c
  if 10 * n.toNat + digit < UInt64.size then some (UInt64.ofNat (10 * n.toNat + digit)) else none

/-- The number that a non-empty piece of decimal digits denotes; leading zeros are allowed. -/
def piece? : List Char → Option UInt64
  | [] => none
  | cs => cs.foldlM push? 0

/-- The version with the given numbers, if each is within the width of its place. -/
def ofNumbers? (major minor revision build : UInt64) : Option Version :=
  if major.toNat < UInt8.size ∧ minor.toNat < UInt8.size ∧ revision.toNat < UInt16.size ∧
      build.toNat < UInt32.size then
    some ⟨major.toUInt8, minor.toUInt8, revision.toUInt16, build.toUInt32⟩
  else none

/-- The version that up to four pieces denote; a missing one is zero. -/
def ofPieces? (pieces : List (List Char)) : Option Version :=
  if pieces.length ≤ 4 then do
    let ns ← pieces.mapM piece?
    ofNumbers? (ns.getD 0 0) (ns.getD 1 0) (ns.getD 2 0) (ns.getD 3 0)
  else none

/-- Reads one to four decimal numbers with a dot between them. -/
def parse? (s : String) : Option Version := ofPieces? (Text.splitOn '.' s.toList)

/-- Reads a version, or gives the text back in the error. -/
def parse (s : String) : Except Error Version := (parse? s).elim (.error (.invalid s)) .ok

/-! ## Order -/

/-- Versions are ordered by their first differing field. -/
protected def compare (v w : Version) : Ordering :=
  (compare v.major.toNat w.major.toNat).then <|
    (compare v.minor.toNat w.minor.toNat).then <|
      (compare v.revision.toNat w.revision.toNat).then (compare v.build.toNat w.build.toNat)

end Version

end Firmware
