import Firmware.Bytes

/-!
# What both image formats put before their TLVs

A fixed header of 32 bytes, padding up to the header size that it declares, and a body of the size
that it declares.  This module holds the checks of those two sizes, on reading and on writing, and
the byte string that a content hash covers.
-/

namespace Firmware.Content

/-- The size of a header without its padding. -/
def headerLength : Nat := 32

def hashLength : Nat := 32

/-- What can be wrong with the sizes in a header. -/
inductive Error where
  | headerSizeTooSmall (size : UInt16)
  | headerSizeTooLarge (size : UInt16) (available : Nat)
  | bodySizeTooLarge (size : UInt32) (available : Nat)
  | bodySizeMismatch (declared : UInt32) (actual : Nat)
  | paddingSizeMismatch (expected actual : Nat)
deriving DecidableEq

def Error.message : Error → String
  | .headerSizeTooSmall size => s!"Header size too small: {size.toNat} < {headerLength}"
  | .headerSizeTooLarge size available =>
    s!"Header size {size.toNat} exceeds available {available} bytes"
  | .bodySizeTooLarge size available =>
    s!"Body size {size.toNat} exceeds remaining {available} bytes"
  | .bodySizeMismatch declared actual =>
    s!"Header declares {declared.toNat} body bytes, but body has {actual} bytes"
  | .paddingSizeMismatch expected actual =>
    s!"Header padding is {actual} bytes, but header size requires {expected}"

/-- The error for data that ends inside the fixed header. -/
def truncated (data : Bytes) : Error := .headerSizeTooLarge (UInt16.ofNat headerLength) data.length

/-- Splits what follows the fixed header into padding, body and rest.  `available` is the size of
the whole file. -/
def split (headerSize : UInt16) (bodySize : UInt32) (available : Nat) (rest : Bytes) :
    Except Error (Bytes × Bytes × Bytes) :=
  if headerSize.toNat < headerLength then .error (.headerSizeTooSmall headerSize)
  else
    match Bytes.splitAt? (headerSize.toNat - headerLength) rest with
    | none => .error (.headerSizeTooLarge headerSize available)
    | some (pad, rest) =>
      match Bytes.splitAt? bodySize.toNat rest with
      | none => .error (.bodySizeTooLarge bodySize rest.length)
      | some (body, rest) => .ok (pad, body, rest)

/-- Whether the sizes in a header are those of the padding and the body. -/
def check (headerSize : UInt16) (bodySize : UInt32) (pad body : Bytes) : Except Error Unit :=
  if headerSize.toNat < headerLength then .error (.headerSizeTooSmall headerSize)
  else if pad.length ≠ headerSize.toNat - headerLength then
    .error (.paddingSizeMismatch (headerSize.toNat - headerLength) pad.length)
  else if bodySize.toNat ≠ body.length then .error (.bodySizeMismatch bodySize body.length)
  else .ok ()

/-- The pieces that are written before the TLVs. -/
inductive Field where
  | header
  | headerPadding
  | body
deriving DecidableEq

def Field.label : Field → String
  | .header => "header"
  | .headerPadding => "header_padding"
  | .body => "body"

/-- The bytes that a content hash covers: an optional initial hash, the header, its padding and the
body. -/
def hashed (initial : Option Bytes) (header pad body : Bytes) : Bytes :=
  initial.getD [] ++ header ++ pad ++ body

end Firmware.Content
