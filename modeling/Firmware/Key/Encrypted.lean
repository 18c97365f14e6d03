import Firmware.Crypto.AesModes
import Firmware.Crypto.Scrypt
import Firmware.Key.Structure

/-!
# Private keys under a passphrase

Encrypted PKCS #8 structures with the schemes of PKCS #5 (RFC 8018, RFC 7914).  A key is derived
from the passphrase with PBKDF2 or scrypt and decrypts with AES in cipher block chaining.  The
structures of the oldest schemes are recognised, but nothing is decrypted with them, nor with SHA-1.
-/

namespace Firmware.Key

open Der (Element)

/-! ## Derivation of the key -/

/-- The hash function inside PBKDF2. -/
inductive Prf where
  | sha1
  | sha224
  | sha256
  | sha384
  | sha512
deriving DecidableEq, Inhabited

namespace Prf

/-- The hash function, unless it is refused. -/
def hash? : Prf → Option Crypto.HashFunction
  | sha1 => none
  | sha224 => some .sha224
  | sha256 => some .sha256
  | sha384 => some .sha384
  | sha512 => some .sha512

/-- The functions by the last number of their identifiers. -/
def numbers : List (Nat × Prf) := [(7, sha1), (8, sha224), (9, sha256), (10, sha384), (11, sha512)]

/-- The function with a given identifier, whose parameters must be the null value. -/
def ofAlgorithm? (a : AlgorithmId) : Option Prf :=
  if a.params = some Der.null then
    (numbers.find? fun (n, _) => a.oid == .ofPath [1, 2, 840, 113549, 2, n]).map (·.2)
  else none

end Prf

/-- How a key is derived from a passphrase.  The size of the key may be given too. -/
inductive Derivation where
  | pbkdf2 (salt : Bytes) (iterations : Nat) (keySize : Option Nat) (prf : Prf)
  | scrypt (salt : Bytes) (cost blockSize lanes : Nat) (keySize : Option Nat)
deriving DecidableEq

namespace Derivation

def pbkdf2Oid : Oid := .ofPath [1, 2, 840, 113549, 1, 5, 12]

def scryptOid : Oid := .ofPath [1, 3, 6, 1, 4, 1, 11591, 4, 11]

/-- Takes the size of the key, if the next field is a number. -/
def takeKeySize : List Element → Option (Option Nat × List Element)
  | [] => some (none, [])
  | e :: r =>
    if e.tag = Der.integerTag then (e.naturalBelow? UInt16.size).map fun n => (some n, r)
    else some (none, e :: r)

/-- Reads the parameters of PBKDF2; without a hash function they mean SHA-1. -/
def pbkdf2Of? : List Element → Option Derivation
  | salt :: iterations :: fields => do
    let salt ← salt.octets?
    let iterations ← iterations.naturalBelow? UInt32.size
    let (keySize, fields) ← takeKeySize fields
    match fields with
    | [] => return .pbkdf2 salt iterations keySize .sha1
    | [prf] =>
      let prf ← Prf.ofAlgorithm? (← AlgorithmId.ofElement? prf)
      return .pbkdf2 salt iterations keySize prf
    | _ => none
  | _ => none

def scryptOf? : List Element → Option Derivation
  | salt :: cost :: blockSize :: lanes :: fields => do
    let salt ← salt.octets?
    let cost ← cost.naturalBelow? UInt64.size
    let blockSize ← blockSize.naturalBelow? UInt16.size
    let lanes ← lanes.naturalBelow? UInt16.size
    match ← takeKeySize fields with
    | (keySize, []) => return .scrypt salt cost blockSize lanes keySize
    | _ => none
  | _ => none

def ofAlgorithm? (a : AlgorithmId) : Option Derivation := do
  let params ← a.params
  if a.oid = pbkdf2Oid then pbkdf2Of? (← params.sequence?)
  else if a.oid = scryptOid then scryptOf? (← params.sequence?)
  else none

/-- The size of the key, where it is given. -/
def keySize : Derivation → Option Nat
  | pbkdf2 _ _ size _ => size
  | scrypt _ _ _ _ size => size

/-- Whether scrypt accepts the parameters. -/
def isValidScrypt (cost blockSize lanes : Nat) : Bool :=
  cost ≠ 0 && cost == Nat.pow 2 (Nat.log2 cost) && 0 < blockSize && 0 < lanes &&
    Nat.log2 cost < 16 * blockSize && blockSize * lanes < 0x40000000

/-- The key of a given size, unless the size or the parameters do not fit. -/
def key? (d : Derivation) (passphrase : Bytes) (size : Nat) : Option Bytes :=
  if d.keySize.getD size ≠ size then none
  else
    match d with
    | pbkdf2 salt iterations _ prf =>
      prf.hash?.map fun h => Crypto.pbkdf2 h passphrase salt iterations size
    | scrypt salt cost blockSize lanes _ =>
      if isValidScrypt cost blockSize lanes then
        some (Crypto.scrypt passphrase salt cost blockSize lanes size)
      else none

end Derivation

/-! ## Schemes -/

/-- AES with one of its key sizes. -/
inductive Cipher where
  | aes128
  | aes192
  | aes256
deriving DecidableEq

namespace Cipher

/-- The size of a key. -/
def keySize : Cipher → Nat
  | aes128 => 16
  | aes192 => 24
  | aes256 => 32

def oid : Cipher → Oid
  | aes128 => .ofPath [2, 16, 840, 1, 101, 3, 4, 1, 2]
  | aes192 => .ofPath [2, 16, 840, 1, 101, 3, 4, 1, 22]
  | aes256 => .ofPath [2, 16, 840, 1, 101, 3, 4, 1, 42]

/-- The cipher with a given identifier. -/
def ofOid? (o : Oid) : Option Cipher := [aes128, aes192, aes256].find? fun c => c.oid == o

end Cipher

/-- How a private key is encrypted. -/
inductive Scheme where
  | modern (derivation : Derivation) (cipher : Cipher) (iv : Bytes)
  /-- A scheme with a fixed cipher, which is refused. -/
  | fixed
deriving DecidableEq

namespace Scheme

/-- The identifier of the scheme with parts to choose. -/
def modernOid : Oid := .ofPath [1, 2, 840, 113549, 1, 5, 13]

/-- The identifiers of the schemes with a fixed cipher. -/
def fixedOids : List Oid := [1, 3, 4, 6, 10, 11].map fun n => .ofPath [1, 2, 840, 113549, 1, 5, n]

/-- The size of a block, and of an initialization vector. -/
def blockSize : Nat := 16

/-- Reads the derivation and the cipher. -/
def modernOf? : List Element → Option Scheme
  | [derivation, cipher] => do
    let derivation ← AlgorithmId.ofElement? derivation
    let cipher ← AlgorithmId.ofElement? cipher
    let derivation ← Derivation.ofAlgorithm? derivation
    let iv ← (← cipher.params).octets?
    let cipher ← Cipher.ofOid? cipher.oid
    if iv.length = blockSize then some (.modern derivation cipher iv) else none
  | _ => none

def fixedOf? : List Element → Option Scheme
  | [salt, iterations] => do
    let salt ← salt.octets?
    let _ ← iterations.naturalBelow? UInt16.size
    if salt.length = 8 then some .fixed else none
  | _ => none

def ofAlgorithm? (a : AlgorithmId) : Option Scheme := do
  let fields ← (← a.params).sequence?
  if a.oid = modernOid then modernOf? fields
  else if fixedOids.contains a.oid then fixedOf? fields
  else none

/-- Decrypts. -/
def decrypt? (s : Scheme) (passphrase data : Bytes) : Option Bytes :=
  match s with
  | fixed => none
  | modern derivation cipher iv => do
    let key ← derivation.key? passphrase cipher.keySize
    Crypto.Aes.cbcDecrypt? key iv data

end Scheme

/-! ## Encrypted keys -/

/-- A private key that is encrypted. -/
structure EncryptedKey where
  scheme : Scheme
  data : Bytes

namespace EncryptedKey

def ofBytes? (der : Bytes) : Option EncryptedKey := do
  match ← (← Der.parse? der).sequence? with
  | [algorithm, data] =>
    let scheme ← Scheme.ofAlgorithm? (← AlgorithmId.ofElement? algorithm)
    return ⟨scheme, ← data.octets?⟩
  | _ => none

/-- The structure of a private key inside. -/
def decrypt? (e : EncryptedKey) (passphrase : Bytes) : Option Bytes := do
  let der ← e.scheme.decrypt? passphrase e.data
  if (← Der.parse? der).tag = Der.sequenceTag then some der else none

/-- The cost of the scrypt derivation of written keys. -/
def scryptCost : Nat := 0x4000

def scryptBlockSize : Nat := 8

def scryptLanes : Nat := 1

/-- The encrypted structure, under a key that scrypt derives. -/
def encryptBytes (passphrase salt iv der : Bytes) : Bytes :=
  let key := Crypto.scrypt passphrase salt scryptCost scryptBlockSize scryptLanes
    Cipher.aes256.keySize
  let derivation : AlgorithmId := ⟨Derivation.scryptOid, some (Der.sequence
    (Der.octetString salt :: [scryptCost, scryptBlockSize, scryptLanes].map Der.integer))⟩
  let cipher : AlgorithmId := ⟨Cipher.aes256.oid, some (Der.octetString iv)⟩
  let algorithm : AlgorithmId :=
    ⟨Scheme.modernOid, some (Der.sequence [derivation.toElement, cipher.toElement])⟩
  (Der.sequence
    [algorithm.toElement, Der.octetString (Crypto.Aes.cbcEncrypt key iv der)]).toBytes

end EncryptedKey

end Firmware.Key
