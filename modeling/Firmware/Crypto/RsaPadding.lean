import Firmware.Crypto.Rsa
import Firmware.Crypto.Sha256

/-!
# RSA padding schemes

The signature schemes PKCS #1 v1.5 and PSS and the encryption scheme OAEP (RFC 8017), all with
SHA-256 and, for PSS and OAEP, with its mask generation function.  Randomness is an argument: the
salt of a PSS signature, the seed of an OAEP message.
-/

namespace Firmware.Crypto.Rsa

def hashSize : Nat := 32

/-- The mask generation function: hashes of the seed and a counter. -/
def mask (seed : Bytes) (len : Nat) : Bytes :=
  ((List.range ((len + hashSize - 1) / hashSize)).flatMap fun i =>
    sha256 (seed ++ Bytes.ofNatBE 4 i)).take len

/-! ## PKCS #1 v1.5 signatures -/

/-- The DER header of a SHA-256 digest info. -/
def digestInfo : Bytes :=
  [0x30, 0x31, 0x30, 0x0d, 0x06, 0x09, 0x60, 0x86, 0x48, 0x01, 0x65, 0x03, 0x04, 0x02, 0x01, 0x05,
    0x00, 0x04, 0x20]

/-- The padded form of a hash for a modulus of `size` bytes, if there is room for it. -/
def pkcs1Encode? (hash : Bytes) (size : Nat) : Option Bytes :=
  if hash.length ≠ hashSize ∨ size < digestInfo.length + hashSize + 11 then none
  else
    some ([0, 1] ++ List.replicate (size - digestInfo.length - hashSize - 3) 0xff ++ [0] ++
      digestInfo ++ hash)

/-- The signature of a hash. -/
def PrivateKey.signPkcs1? (k : PrivateKey) (hash : Bytes) : Option Bytes := do
  let padded ← pkcs1Encode? hash k.size
  let m ← k.applyChecked? (Bytes.toNatBE padded)
  return Bytes.ofNatBE k.size m

/-- Whether a signature belongs to a hash. -/
def PublicKey.verifyPkcs1 (k : PublicKey) (hash signature : Bytes) : Bool :=
  let s := Bytes.toNatBE signature
  signature.length == k.size && s < k.modulus &&
    pkcs1Encode? hash k.size == some (Bytes.ofNatBE k.size (k.apply s))

/-! ## PSS signatures -/

def saltSize : Nat := 32

/-- The byte string with its first `bits` bits cleared. -/
def clearTop (bits : Nat) : Bytes → Bytes
  | [] => []
  | b :: r => (b &&& UInt8.ofNat (Nat.pow 2 (8 - bits) - 1)) :: r

/-- The hash of a padded hash and a salt. -/
def pssHash (hash salt : Bytes) : Bytes := sha256 (Bytes.zeros 8 ++ hash ++ salt)

/-- The padded form of a hash in `bits` bits, if there is room for it. -/
def pssEncode? (hash salt : Bytes) (bits : Nat) : Option Bytes :=
  let size := (bits + 7) / 8
  if hash.length ≠ hashSize ∨ size < hashSize + salt.length + 2 then none
  else
    let h := pssHash hash salt
    let db := Bytes.zeros (size - salt.length - hashSize - 2) ++ [1] ++ salt
    let masked := clearTop (8 * size - bits) (Bytes.xor db (mask h db.length))
    some (masked ++ h ++ [0xbc])

/-- Whether a padded form in `bits` bits belongs to a hash.  The salt is part of the padded form. -/
def pssMatches (hash padded : Bytes) (bits : Nat) : Bool :=
  let size := (bits + 7) / 8
  let masked := padded.take (size - hashSize - 1)
  let h := (padded.drop (size - hashSize - 1)).take hashSize
  let db := clearTop (8 * size - bits) (Bytes.xor masked (mask h masked.length))
  let salt := db.drop (db.length - saltSize)
  hash.length == hashSize && hashSize + saltSize + 2 ≤ size &&
    padded.getLast? == some 0xbc && masked == clearTop (8 * size - bits) masked &&
    db == Bytes.zeros (db.length - saltSize - 1) ++ [1] ++ salt && pssHash hash salt == h

/-- The signature of a hash with a given salt. -/
def PrivateKey.signPss? (k : PrivateKey) (hash salt : Bytes) : Option Bytes := do
  let padded ← pssEncode? hash salt (bitLength k.modulus - 1)
  let m ← k.applyChecked? (Bytes.toNatBE padded)
  return Bytes.ofNatBE k.size m

/-- Whether a signature belongs to a hash. -/
def PublicKey.verifyPss (k : PublicKey) (hash signature : Bytes) : Bool :=
  let bits := bitLength k.modulus - 1
  let padded := Bytes.ofNatBE k.size (k.apply (Bytes.toNatBE signature))
  signature.length == k.size && pssMatches hash (padded.drop (k.size - (bits + 7) / 8)) bits

/-! ## OAEP encryption -/

/-- The digest of the empty label. -/
def labelHash : Bytes := sha256 []

/-- A message encrypted with a given seed, if there is room for it. -/
def PublicKey.encryptOaep? (k : PublicKey) (message seed : Bytes) : Option Bytes :=
  if k.size < message.length + 2 * hashSize + 2 then none
  else
    let fill := Bytes.zeros (k.size - message.length - 2 * hashSize - 2)
    let db := labelHash ++ fill ++ [1] ++ message
    let maskedDb := Bytes.xor db (mask seed db.length)
    let maskedSeed := Bytes.xor seed (mask maskedDb hashSize)
    some (Bytes.ofNatBE k.size (k.apply (Bytes.toNatBE (0 :: maskedSeed ++ maskedDb))))

/-- The message in a padded form. -/
def oaepDecode? : Bytes → Option Bytes
  | [] => none
  | first :: rest =>
    let maskedDb := rest.drop hashSize
    let seed := Bytes.xor (rest.take hashSize) (mask maskedDb hashSize)
    let db := Bytes.xor maskedDb (mask seed maskedDb.length)
    match (db.drop hashSize).dropWhile (· == 0) with
    | mark :: message =>
      if first = 0 ∧ db.take hashSize = labelHash ∧ mark = 1 then some message else none
    | [] => none

/-- The message in a ciphertext. -/
def PrivateKey.decryptOaep? (k : PrivateKey) (ciphertext : Bytes) : Option Bytes := do
  let m ← k.applyChecked? (Bytes.toNatBE ciphertext)
  if k.size < 2 * hashSize + 2 then none else oaepDecode? (Bytes.ofNatBE k.size m)

end Firmware.Crypto.Rsa
