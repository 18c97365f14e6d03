import Firmware.Encoding.Der
import Firmware.Key.Basic

/-!
# Keys as data structures

The structures in which keys are exchanged: PKCS #1 for RSA (RFC 8017, appendix A.1), the private
key structure of SEC 1 for elliptic curves (RFC 5915), PKCS #8 for private keys of any algorithm
(RFC 5958), and the structure for public keys of any algorithm (RFC 5280, section 4.1.2.7).
-/

namespace Firmware.Key

open Der (Element)

/-! ## Algorithm identifiers -/

def rsaOid : Oid := .ofPath [1, 2, 840, 113549, 1, 1, 1]

def ecOid : Oid := .ofPath [1, 2, 840, 10045, 2, 1]

def ed25519Oid : Oid := .ofPath [1, 3, 101, 112]

/-- An algorithm and its parameters. -/
structure AlgorithmId where
  oid : Oid
  params : Option Element
deriving DecidableEq

namespace AlgorithmId

def ofElement? (e : Element) : Option AlgorithmId := do
  match ← e.sequence? with
  | [oid] => return ⟨← oid.oid?, none⟩
  | [oid, params] => return ⟨← oid.oid?, some params⟩
  | _ => none

def toElement (a : AlgorithmId) : Element := Der.sequence (Der.oid a.oid :: a.params.toList)

/-- The parameters as an object identifier. -/
def paramsOid? (a : AlgorithmId) : Option Oid := do (← a.params).oid?

/-- Whether this is RSA; its parameters must be the null value. -/
def isRsa (a : AlgorithmId) : Bool := a == ⟨rsaOid, some Der.null⟩

def rsa : AlgorithmId := ⟨rsaOid, some Der.null⟩

def ec (c : EcCurve) : AlgorithmId := ⟨ecOid, some (Der.oid c.oid)⟩

def ed25519 : AlgorithmId := ⟨ed25519Oid, none⟩

end AlgorithmId

/-! ## RSA keys -/

/-- Reads a public key of acceptable size. -/
def rsaPublicOf? (der : Bytes) : Option Crypto.Rsa.PublicKey := do
  match ← (← (← Der.parse? der).sequence?).mapM Element.natural? with
  | [n, e] =>
    let key : Crypto.Rsa.PublicKey := ⟨n, e⟩
    if key.isValid ∧ Crypto.Rsa.bitLength n ≤ Crypto.Rsa.PublicKey.maxBits then some key else none
  | _ => none

/-- The structure for a public key. -/
def rsaPublicBytes (key : Crypto.Rsa.PublicKey) : Bytes :=
  (Der.sequence ([key.modulus, key.exponent].map Der.integer)).toBytes

/-- Reads a private key with two primes.  The numbers that speed up its use are not looked at. -/
def rsaPrivateOf? (der : Bytes) : Option Crypto.Rsa.PrivateKey := do
  match ← (← (← Der.parse? der).sequence?).mapM Element.natural? with
  | [version, n, e, d, p, q, _, _, _] =>
    let key : Crypto.Rsa.PrivateKey := ⟨n, e, d, p, q⟩
    if version = 0 ∧ key.isValid then some key else none
  | _ => none

/-- The structure for a private key, unless its second prime has no inverse modulo the first. -/
def rsaPrivateBytes? (key : Crypto.Rsa.PrivateKey) : Option Bytes := do
  let coefficient ← key.coefficient?
  let numbers := [0, key.modulus, key.exponent, key.secret, key.prime1, key.prime2, key.exponent1,
    key.exponent2, coefficient]
  return (Der.sequence (numbers.map Der.integer)).toBytes

/-! ## Elliptic curve private keys -/

/-- A private key as exchanged: the scalar as bytes, perhaps the curve and the public point. -/
structure EcPrivate where
  scalar : Bytes
  curve : Option Oid
  point : Option Bytes

namespace EcPrivate

/-- The content of an optional field. -/
def optional? {α : Type} (read : Element → Option α) : Option Element → Option (Option α)
  | none => some none
  | some e => (read e).map some

def ofBytes? (der : Bytes) : Option EcPrivate := do
  match ← (← Der.parse? der).sequence? with
  | version :: scalar :: fields =>
    if (← version.natural?) ≠ 1 then none
    let scalar ← scalar.octets?
    let (curve, fields) := Der.takeField 0 fields
    let curve ← optional? (fun e => do (← e.explicit? 0).oid?) curve
    let (point, fields) := Der.takeField 1 fields
    let point ← optional? (fun e => do (← (← e.explicit? 1).bits?).toBytes?) point
    if fields.isEmpty then some ⟨scalar, curve, point⟩ else none
  | _ => none

/-- The structure for a scalar and its point, without the curve. -/
def bytes (c : EcCurve) (scalar : Nat) (point : Crypto.Curve.Point) : Bytes :=
  (Der.sequence
    [Der.integer 1, Der.octetString (Bytes.ofNatBE c.params.fieldSize scalar),
      Der.explicit 1 (Der.bitString (.ofBytes (c.params.encode point)))]).toBytes

/-- The least size of a scalar. -/
def minScalarSize : Nat := 24

/-- The key on a given curve.  A short scalar is filled up with zeros on the left, the point must be
that of the scalar, and the curve in the structure is not looked at. -/
def toKey? (c : EcCurve) (e : EcPrivate) : Option SigningKey :=
  if minScalarSize ≤ e.scalar.length ∧ e.scalar.length ≤ c.params.fieldSize then
    match SigningKey.ofScalar? c (Bytes.toNatBE e.scalar) with
    | some (.ec c d q) =>
      match e.point with
      | none => some (.ec c d q)
      | some given =>
        if given = c.params.encode q ∨ given = c.params.encodeCompressed q then some (.ec c d q)
        else none
    | _ => none
  else none

/-- The key on the curve that the size of the scalar suggests, or else on the other one. -/
def toAnyKey? (e : EcPrivate) : Option SigningKey :=
  if e.scalar.length = EcCurve.p224.params.fieldSize then
    e.toKey? .p224 <|> e.toKey? .p256
  else e.toKey? .p256 <|> e.toKey? .p224

end EcPrivate

/-- Reads an elliptic curve key that stands on its own. -/
def ecPrivateOf (der : Bytes) : Except Error SigningKey :=
  (EcPrivate.ofBytes? der >>= EcPrivate.toAnyKey?).elim (.error .unsupportedEcKey) .ok

/-! ## Private keys of any algorithm -/

/-- A private key with its algorithm, and perhaps the public key. -/
structure PrivateKeyInfo where
  algorithm : AlgorithmId
  key : Bytes
  publicKey : Option Bytes

namespace PrivateKeyInfo

/-- Reads the structure.  The version tells whether there is a public key, and other fields are
ignored. -/
def ofBytes? (der : Bytes) : Option PrivateKeyInfo := do
  match ← (← Der.parse? der).sequence? with
  | version :: algorithm :: key :: fields =>
    let version ← version.naturalBelow? 2
    let algorithm ← AlgorithmId.ofElement? algorithm
    let key ← key.octets?
    let (point, fields) := Der.takeField 1 fields
    let point ← EcPrivate.optional?
      (fun e => do (← Der.Bits.ofContent? (← e.expect? (Der.implicitTag 1))).toBytes?) point
    if point.isSome = (version == 1) ∧ fields.all Element.isExplicit then
      some ⟨algorithm, key, point⟩
    else none
  | _ => none

def toBytes (i : PrivateKeyInfo) : Bytes :=
  let version := Der.integer (if i.publicKey.isSome then 1 else 0)
  let publicKey :=
    i.publicKey.toList.map fun key => ⟨Der.implicitTag 1, (Der.Bits.ofBytes key).content⟩
  (Der.sequence
    ([version, i.algorithm.toElement, Der.octetString i.key] ++ publicKey)).toBytes

def toKey (i : PrivateKeyInfo) : Except Error SigningKey :=
  if i.algorithm.oid = rsaOid then
    if i.algorithm.isRsa then (rsaPrivateOf? i.key).elim (.error .loadPkcs8) (.ok ∘ .rsa)
    else .error .loadPkcs8
  else if i.algorithm.oid = ecOid then
    match i.algorithm.paramsOid? with
    | none => .error .loadPkcs8
    | some curve =>
      match EcCurve.ofOid? curve with
      | none => .error (.unsupportedCurve curve)
      | some c => (EcPrivate.ofBytes? i.key >>= (·.toKey? c)).elim (.error .loadPkcs8) .ok
  else if i.algorithm.oid = ed25519Oid then
    match Der.parse? i.key >>= Element.octets? with
    | none => .error .invalidEd25519
    | some seed => if seed.length = 32 then .ok (.ed25519 seed) else .error .invalidEd25519
  else .error (.unsupportedAlgorithm i.algorithm.oid)

/-- The structure for a key; an RSA key may have none. -/
def ofKey? : SigningKey → Option PrivateKeyInfo
  | .rsa key => do return ⟨.rsa, ← rsaPrivateBytes? key, none⟩
  | .ec c scalar point => some ⟨.ec c, EcPrivate.bytes c scalar point, none⟩
  | .ed25519 seed =>
    some ⟨.ed25519, (Der.octetString seed).toBytes, some (Crypto.Ed25519.publicKey seed)⟩

end PrivateKeyInfo

/-- Reads a private key of any algorithm. -/
def pkcs8Of (der : Bytes) : Except Error SigningKey :=
  (PrivateKeyInfo.ofBytes? der).elim (.error .loadPkcs8) PrivateKeyInfo.toKey

/-! ## Public keys of any algorithm -/

/-- A public key with its algorithm. -/
structure PublicKeyInfo where
  algorithm : AlgorithmId
  bits : Der.Bits

namespace PublicKeyInfo

def ofBytes? (der : Bytes) : Option PublicKeyInfo := do
  match ← (← Der.parse? der).sequence? with
  | [algorithm, bits] => return ⟨← AlgorithmId.ofElement? algorithm, ← bits.bits?⟩
  | _ => none

def toBytes (i : PublicKeyInfo) : Bytes :=
  (Der.sequence [i.algorithm.toElement, Der.bitString i.bits]).toBytes

def toKey (i : PublicKeyInfo) : Except Error PublicKey :=
  if i.algorithm.oid = rsaOid then
    if i.algorithm.isRsa then
      (i.bits.toBytes? >>= rsaPublicOf?).elim (.error .loadPublic) (.ok ∘ .rsa)
    else .error .loadPublic
  else if i.algorithm.oid = ecOid then
    match i.algorithm.paramsOid? with
    | none => .error .loadPublic
    | some curve =>
      match EcCurve.ofOid? curve with
      | none => .error (.unsupportedCurve curve)
      | some c =>
        (i.bits.toBytes? >>= c.params.decode?).elim (.error .loadPublic) (.ok ∘ .ec c)
  else if i.algorithm.oid = ed25519Oid then
    match i.bits.toBytes? with
    | none => .error .invalidEd25519
    | some point =>
      if Crypto.Ed25519.isKey point then .ok (.ed25519 point) else .error .invalidEd25519
  else .error (.unsupportedAlgorithm i.algorithm.oid)

def ofKey : PublicKey → PublicKeyInfo
  | .rsa key => ⟨.rsa, .ofBytes (rsaPublicBytes key)⟩
  | .ec c point => ⟨.ec c, .ofBytes (c.params.encode point)⟩
  | .ed25519 point => ⟨.ed25519, .ofBytes point⟩

end PublicKeyInfo

def publicKeyOf (der : Bytes) : Except Error PublicKey :=
  (PublicKeyInfo.ofBytes? der).elim (.error .loadPublic) PublicKeyInfo.toKey

namespace PublicKey

/-- The encoded key that key hashes cover: PKCS #1 for RSA keys, the structure for public keys of
any algorithm for the others. -/
def encoding (k : PublicKey) : Bytes :=
  match k with
  | rsa key => rsaPublicBytes key
  | _ => (PublicKeyInfo.ofKey k).toBytes

/-- The number of bytes in a key hash. -/
def keyHashSize : Nat := 4

/-- The hash that names the key in an image, the beginning of a digest. -/
def keyHash (k : PublicKey) : Bytes := (Crypto.sha256 k.encoding).take keyHashSize

end PublicKey

end Firmware.Key
