import Firmware.Crypto.Rsa
import Firmware.Random

/-!
# Searching for RSA keys

A new key needs two large primes.  A number is drawn and the odd numbers from there on are tried; a
number counts as a prime if it behaves like one towards each of a few bases.  Numbers that deceive
the test are too rare to be met by chance, and the key that is made of two such numbers is checked
before it is given out.
-/

namespace Firmware.Crypto.Rsa

/-! ## Primes -/

/-- Whether one of `squarings` numbers is `-1` modulo `n`, of which the first is given and each
other one is the square of the one before. -/
def reachesMinusOne (n : Nat) : Nat → Nat → Bool
  | 0, _ => false
  | squarings + 1, x => x == n - 1 || reachesMinusOne n squarings (x * x % n)

/-- Whether an odd number behaves like a prime towards a base: the powers of the base, from the
largest odd divisor of `n - 1` on, come to one by way of `-1` or are one from the start. -/
def passes (n base : Nat) : Bool :=
  let halvings := Modular.twos (Nat.log2 n + 1) (n - 1)
  let x := Modular.pow base ((n - 1) / Nat.pow 2 halvings) n
  x == 1 || reachesMinusOne n halvings x

/-- The bases that a number is tested with. -/
def bases : List Nat := [2, 3, 5, 7, 11, 13, 17, 19, 23, 29, 31, 37]

/-- The first of at most `fuel` odd numbers that passes, from an odd number on. -/
def firstPrime? : Nat → Nat → Option Nat
  | 0, _ => none
  | fuel + 1, n => if bases.all (passes n) then some n else firstPrime? fuel (n + 2)

/-! ## Keys -/

/-- The public exponent of new keys. -/
def newExponent : Nat := 65537

/-- The key with two given primes, unless they do not fit the exponent. -/
def ofPrimes? (p q : Nat) : Option PrivateKey := do
  let secret ← Modular.inverse? newExponent ((p - 1) * (q - 1))
  let key : PrivateKey := ⟨p * q, newExponent, secret, p, q⟩
  if p ≠ q ∧ key.isValid then some key else none

/-- The most odd numbers that are tried from a drawn one on.  Among numbers of the size of a prime
of a key, one in a few hundred odd ones is a prime. -/
def maxTries : Nat := 20000

/-- Draws a number of a given number of bytes, odd and with the two highest bits set, and finds a
prime behind it.  The product of two such numbers has twice that many bytes. -/
def drawPrime (size : Nat) : Random Unit Nat := do
  let drawn ← Random.draw size
  let start := Bytes.toNatBE drawn ||| (3 <<< (8 * size - 2)) ||| 1
  (firstPrime? maxTries start).elim (throw ()) pure

/-- A new key whose modulus has a given number of bits, unless the primes that are found do not fit
each other. -/
def search (bits : Nat) : Random Unit PrivateKey := do
  let p ← drawPrime (bits / 16)
  let q ← drawPrime (bits / 16)
  (ofPrimes? p q).elim (throw ()) pure

end Firmware.Crypto.Rsa
