import Firmware.Bytes
import Firmware.Crypto.Schedule

/-!
# SHA-224 and SHA-256

The 32-bit members of the SHA-2 family (FIPS 180-4).  A message is padded to blocks of 64 bytes,
each block is compressed into a state of eight words, and the digest is the state in big-endian
order; SHA-224 starts from other words and drops the last one.
-/

namespace Firmware.Crypto.Sha256

/-- The eight working words. -/
structure State where
  a : UInt32
  b : UInt32
  c : UInt32
  d : UInt32
  e : UInt32
  f : UInt32
  g : UInt32
  h : UInt32

/-- The round constants: the first 32 fractional bits of the cube roots of the first 64 primes. -/
def roundConstants : List UInt32 :=
  [0x428a2f98, 0x71374491, 0xb5c0fbcf, 0xe9b5dba5, 0x3956c25b, 0x59f111f1,
   0x923f82a4, 0xab1c5ed5, 0xd807aa98, 0x12835b01, 0x243185be, 0x550c7dc3,
   0x72be5d74, 0x80deb1fe, 0x9bdc06a7, 0xc19bf174, 0xe49b69c1, 0xefbe4786,
   0x0fc19dc6, 0x240ca1cc, 0x2de92c6f, 0x4a7484aa, 0x5cb0a9dc, 0x76f988da,
   0x983e5152, 0xa831c66d, 0xb00327c8, 0xbf597fc7, 0xc6e00bf3, 0xd5a79147,
   0x06ca6351, 0x14292967, 0x27b70a85, 0x2e1b2138, 0x4d2c6dfc, 0x53380d13,
   0x650a7354, 0x766a0abb, 0x81c2c92e, 0x92722c85, 0xa2bfe8a1, 0xa81a664b,
   0xc24b8b70, 0xc76c51a3, 0xd192e819, 0xd6990624, 0xf40e3585, 0x106aa070,
   0x19a4c116, 0x1e376c08, 0x2748774c, 0x34b0bcb5, 0x391c0cb3, 0x4ed8aa4a,
   0x5b9cca4f, 0x682e6ff3, 0x748f82ee, 0x78a5636f, 0x84c87814, 0x8cc70208,
   0x90befffa, 0xa4506ceb, 0xbef9a3f7, 0xc67178f2]

/-- The initial state of SHA-256: the first 32 fractional bits of the square roots of the first
eight primes. -/
def initial256 : State :=
  ⟨0x6a09e667, 0xbb67ae85, 0x3c6ef372, 0xa54ff53a,
    0x510e527f, 0x9b05688c, 0x1f83d9ab, 0x5be0cd19⟩

/-- The initial state of SHA-224. -/
def initial224 : State :=
  ⟨0xc1059ed8, 0x367cd507, 0x3070dd17, 0xf70e5939,
    0xffc00b31, 0x68581511, 0x64f98fa7, 0xbefa4fa4⟩

/-- Rotation of a word to the right by `n` bits, `0 < n < 32`. -/
@[inline] def rotr (x : UInt32) (n : UInt32) : UInt32 := (x >>> n) ||| (x <<< (32 - n))

/-- The word that the schedule yields 16 rounds after the one at place `i` of the window. -/
@[inline] def nextWord (w : Vector UInt32 16) (i : Place) : UInt32 :=
  let x := w.get (i.ahead 1)
  let y := w.get (i.ahead 14)
  w.get i + (rotr x 7 ^^^ rotr x 18 ^^^ (x >>> 3)) + w.get (i.ahead 9) +
    (rotr y 17 ^^^ rotr y 19 ^^^ (y >>> 10))

/-- One round with the sum of its constant and its message word. -/
@[inline] def round (s : State) (kw : UInt32) : State :=
  let t1 := s.h + (rotr s.e 6 ^^^ rotr s.e 11 ^^^ rotr s.e 25) +
    ((s.e &&& s.f) ^^^ (~~~s.e &&& s.g)) + kw
  let t2 := (rotr s.a 2 ^^^ rotr s.a 13 ^^^ rotr s.a 22) +
    ((s.a &&& s.b) ^^^ (s.a &&& s.c) ^^^ (s.b &&& s.c))
  ⟨t1 + t2, s.a, s.b, s.c, s.d + t1, s.e, s.f, s.g⟩

/-- The rounds for a list of constants.  The window holds the message words of this round and the
15 that follow, the current one at place `i`; each round replaces its word by the one that is
needed 16 rounds later. -/
def rounds : List UInt32 → Vector UInt32 16 → Place → State → State
  | [], _, _, s => s
  | k :: ks, w, i, s => rounds ks (w.set i (nextWord w i)) (i.ahead 1) (round s (k + w.get i))

/-- The big-endian words of a block. -/
def words : Bytes → List UInt32
  | a :: b :: c :: d :: r =>
    ((a.toUInt32 <<< 24) ||| (b.toUInt32 <<< 16) ||| (c.toUInt32 <<< 8) ||| d.toUInt32) :: words r
  | _ => []

/-- The window that a block starts with. -/
def window (block : Bytes) : Vector UInt32 16 :=
  let ws := (words block).toArray
  Vector.ofFn fun i => ws.getD i 0

def compress (s : State) (block : Bytes) : State :=
  let t := rounds roundConstants (window block) Place.first s
  ⟨s.a + t.a, s.b + t.b, s.c + t.c, s.d + t.d, s.e + t.e, s.f + t.f, s.g + t.g, s.h + t.h⟩

/-- The padding of a message of `n` bytes: a one bit, zeros, and the length in bits as a 64-bit
number, up to a multiple of 64 bytes. -/
def padding (n : Nat) : Bytes :=
  0x80 :: Bytes.zeros ((119 - n % 64) % 64) ++ Bytes.ofNatBE 8 (8 * n)

/-- Compresses `n` blocks of 64 bytes from the front of the data. -/
def absorb : Nat → State → Bytes → State
  | 0, s, _ => s
  | n + 1, s, data => absorb n (compress s (data.take 64)) (data.drop 64)

/-- The state after the padded message. -/
def run (s : State) (message : Bytes) : State :=
  let n := message.length
  absorb (n / 64 + if n % 64 < 56 then 1 else 2) s (message ++ padding n)

/-- The state in big-endian order. -/
def State.toBytes (s : State) : Bytes :=
  [s.a, s.b, s.c, s.d, s.e, s.f, s.g, s.h].flatMap fun w => Bytes.ofNatBE 4 w.toNat

@[simp] theorem length_toBytes (s : State) : s.toBytes.length = 32 := by
  simp [State.toBytes]

end Firmware.Crypto.Sha256

namespace Firmware.Crypto

/-- The SHA-256 digest, 32 bytes. -/
def sha256 (message : Bytes) : Bytes := (Sha256.run Sha256.initial256 message).toBytes

/-- The SHA-224 digest, 28 bytes. -/
def sha224 (message : Bytes) : Bytes := (Sha256.run Sha256.initial224 message).toBytes.take 28

@[simp] theorem length_sha256 (message : Bytes) : (sha256 message).length = 32 :=
  Sha256.length_toBytes _

@[simp] theorem length_sha224 (message : Bytes) : (sha224 message).length = 28 := by
  simp [sha224]

end Firmware.Crypto
