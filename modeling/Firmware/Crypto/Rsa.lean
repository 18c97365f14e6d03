import Firmware.Bytes
import Firmware.Crypto.Modular

/-!
# RSA keys

Keys with two primes and the two primitives on numbers (RFC 8017).  A key is valid when its numbers
fit together; the private primitive uses the primes and then checks its own result, so that a fault
never leaves as a signature.
-/

namespace Firmware.Crypto.Rsa

structure PublicKey where
  modulus : Nat
  exponent : Nat
deriving DecidableEq, Inhabited

/-- A private key: a public key, the private exponent and the two primes. -/
structure PrivateKey where
  modulus : Nat
  exponent : Nat
  secret : Nat
  prime1 : Nat
  prime2 : Nat
deriving DecidableEq, Inhabited

/-- The number of bits of a number. -/
def bitLength (n : Nat) : Nat := if n = 0 then 0 else Nat.log2 n + 1

/-- The number of bytes of a number. -/
def byteLength (n : Nat) : Nat := (bitLength n + 7) / 8

namespace PublicKey

/-- The size of the modulus in bytes. -/
def size (k : PublicKey) : Nat := byteLength k.modulus

/-- Whether modulus and exponent are odd and the exponent is in its range. -/
def isValid (k : PublicKey) : Bool :=
  k.modulus % 2 == 1 && k.exponent % 2 == 1 && 3 ≤ k.exponent && k.exponent < 0x200000000 &&
    k.exponent < k.modulus

/-- The largest modulus, in bits, of a key that is read on its own. -/
def maxBits : Nat := 4096

def apply (k : PublicKey) (m : Nat) : Nat := Modular.pow m k.exponent k.modulus

end PublicKey

namespace PrivateKey

def toPublic (k : PrivateKey) : PublicKey := ⟨k.modulus, k.exponent⟩

def size (k : PrivateKey) : Nat := k.toPublic.size

/-- The exponent for the first prime. -/
def exponent1 (k : PrivateKey) : Nat := k.secret % (k.prime1 - 1)

/-- The exponent for the second prime. -/
def exponent2 (k : PrivateKey) : Nat := k.secret % (k.prime2 - 1)

/-- The inverse of the second prime modulo the first one. -/
def coefficient? (k : PrivateKey) : Option Nat := Modular.inverse? k.prime2 k.prime1

/-- Whether the primes multiply to the modulus and the exponents are inverse for each of them. -/
def isValid (k : PrivateKey) : Bool :=
  k.toPublic.isValid && 1 < k.prime1 && 1 < k.prime2 && k.prime1 * k.prime2 == k.modulus &&
    k.secret * k.exponent % (k.prime1 - 1) == 1 && k.secret * k.exponent % (k.prime2 - 1) == 1

/-- The private primitive without a check, through the two primes where that is possible. -/
def power (k : PrivateKey) (c : Nat) : Nat :=
  match k.coefficient? with
  | none => Modular.pow c k.secret k.modulus
  | some coefficient =>
    let m1 := Modular.pow c k.exponent1 k.prime1
    let m2 := Modular.pow c k.exponent2 k.prime2
    Modular.sub m1 m2 k.prime1 * coefficient % k.prime1 * k.prime2 + m2

/-- The private primitive.  It refuses numbers that are not reduced, and results that the public
primitive does not take back to the input. -/
def applyChecked? (k : PrivateKey) (c : Nat) : Option Nat :=
  if c < k.modulus then
    let m := k.power c
    if k.toPublic.apply m = c then some m else none
  else none

end PrivateKey

end Firmware.Crypto.Rsa
