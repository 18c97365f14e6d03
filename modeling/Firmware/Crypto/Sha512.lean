import Firmware.Bytes
import Firmware.Crypto.Schedule

/-!
# SHA-384 and SHA-512

The 64-bit members of the SHA-2 family (FIPS 180-4), with blocks of 128 bytes.
-/

namespace Firmware.Crypto.Sha512

/-- The eight working words. -/
structure State where
  a : UInt64
  b : UInt64
  c : UInt64
  d : UInt64
  e : UInt64
  f : UInt64
  g : UInt64
  h : UInt64

/-- The round constants: the first 64 fractional bits of the cube roots of the first 80 primes. -/
def roundConstants : List UInt64 :=
  [0x428a2f98d728ae22, 0x7137449123ef65cd, 0xb5c0fbcfec4d3b2f, 0xe9b5dba58189dbbc,
   0x3956c25bf348b538, 0x59f111f1b605d019, 0x923f82a4af194f9b, 0xab1c5ed5da6d8118,
   0xd807aa98a3030242, 0x12835b0145706fbe, 0x243185be4ee4b28c, 0x550c7dc3d5ffb4e2,
   0x72be5d74f27b896f, 0x80deb1fe3b1696b1, 0x9bdc06a725c71235, 0xc19bf174cf692694,
   0xe49b69c19ef14ad2, 0xefbe4786384f25e3, 0x0fc19dc68b8cd5b5, 0x240ca1cc77ac9c65,
   0x2de92c6f592b0275, 0x4a7484aa6ea6e483, 0x5cb0a9dcbd41fbd4, 0x76f988da831153b5,
   0x983e5152ee66dfab, 0xa831c66d2db43210, 0xb00327c898fb213f, 0xbf597fc7beef0ee4,
   0xc6e00bf33da88fc2, 0xd5a79147930aa725, 0x06ca6351e003826f, 0x142929670a0e6e70,
   0x27b70a8546d22ffc, 0x2e1b21385c26c926, 0x4d2c6dfc5ac42aed, 0x53380d139d95b3df,
   0x650a73548baf63de, 0x766a0abb3c77b2a8, 0x81c2c92e47edaee6, 0x92722c851482353b,
   0xa2bfe8a14cf10364, 0xa81a664bbc423001, 0xc24b8b70d0f89791, 0xc76c51a30654be30,
   0xd192e819d6ef5218, 0xd69906245565a910, 0xf40e35855771202a, 0x106aa07032bbd1b8,
   0x19a4c116b8d2d0c8, 0x1e376c085141ab53, 0x2748774cdf8eeb99, 0x34b0bcb5e19b48a8,
   0x391c0cb3c5c95a63, 0x4ed8aa4ae3418acb, 0x5b9cca4f7763e373, 0x682e6ff3d6b2b8a3,
   0x748f82ee5defb2fc, 0x78a5636f43172f60, 0x84c87814a1f0ab72, 0x8cc702081a6439ec,
   0x90befffa23631e28, 0xa4506cebde82bde9, 0xbef9a3f7b2c67915, 0xc67178f2e372532b,
   0xca273eceea26619c, 0xd186b8c721c0c207, 0xeada7dd6cde0eb1e, 0xf57d4f7fee6ed178,
   0x06f067aa72176fba, 0x0a637dc5a2c898a6, 0x113f9804bef90dae, 0x1b710b35131c471b,
   0x28db77f523047d84, 0x32caab7b40c72493, 0x3c9ebe0a15c9bebc, 0x431d67c49c100d4c,
   0x4cc5d4becb3e42b6, 0x597f299cfc657e2a, 0x5fcb6fab3ad6faec, 0x6c44198c4a475817]

/-- The initial state of SHA-512: the first 64 fractional bits of the square roots of the first
eight primes. -/
def initial512 : State :=
  ⟨0x6a09e667f3bcc908, 0xbb67ae8584caa73b, 0x3c6ef372fe94f82b,
    0xa54ff53a5f1d36f1, 0x510e527fade682d1, 0x9b05688c2b3e6c1f,
    0x1f83d9abfb41bd6b, 0x5be0cd19137e2179⟩

/-- The initial state of SHA-384, from the ninth to the sixteenth prime. -/
def initial384 : State :=
  ⟨0xcbbb9d5dc1059ed8, 0x629a292a367cd507, 0x9159015a3070dd17,
    0x152fecd8f70e5939, 0x67332667ffc00b31, 0x8eb44a8768581511,
    0xdb0c2e0d64f98fa7, 0x47b5481dbefa4fa4⟩

/-- Rotation of a word to the right by `n` bits, `0 < n < 64`. -/
@[inline] def rotr (x : UInt64) (n : UInt64) : UInt64 := (x >>> n) ||| (x <<< (64 - n))

/-- The word that the schedule yields 16 rounds after the one at place `i` of the window. -/
@[inline] def nextWord (w : Vector UInt64 16) (i : Place) : UInt64 :=
  let x := w.get (i.ahead 1)
  let y := w.get (i.ahead 14)
  w.get i + (rotr x 1 ^^^ rotr x 8 ^^^ (x >>> 7)) + w.get (i.ahead 9) +
    (rotr y 19 ^^^ rotr y 61 ^^^ (y >>> 6))

/-- One round with the sum of its constant and its message word. -/
@[inline] def round (s : State) (kw : UInt64) : State :=
  let t1 := s.h + (rotr s.e 14 ^^^ rotr s.e 18 ^^^ rotr s.e 41) +
    ((s.e &&& s.f) ^^^ (~~~s.e &&& s.g)) + kw
  let t2 := (rotr s.a 28 ^^^ rotr s.a 34 ^^^ rotr s.a 39) +
    ((s.a &&& s.b) ^^^ (s.a &&& s.c) ^^^ (s.b &&& s.c))
  ⟨t1 + t2, s.a, s.b, s.c, s.d + t1, s.e, s.f, s.g⟩

/-- The rounds for a list of constants; the window is kept as for the 32-bit functions. -/
def rounds : List UInt64 → Vector UInt64 16 → Place → State → State
  | [], _, _, s => s
  | k :: ks, w, i, s => rounds ks (w.set i (nextWord w i)) (i.ahead 1) (round s (k + w.get i))

/-- The big-endian words of a block. -/
def words : Bytes → List UInt64
  | a :: b :: c :: d :: e :: f :: g :: h :: r =>
    UInt64.ofNat (Bytes.toNatBE [a, b, c, d, e, f, g, h]) :: words r
  | _ => []

/-- The window that a block starts with. -/
def window (block : Bytes) : Vector UInt64 16 :=
  let ws := (words block).toArray
  Vector.ofFn fun i => ws.getD i 0

def compress (s : State) (block : Bytes) : State :=
  let t := rounds roundConstants (window block) Place.first s
  ⟨s.a + t.a, s.b + t.b, s.c + t.c, s.d + t.d, s.e + t.e, s.f + t.f, s.g + t.g, s.h + t.h⟩

/-- The padding of a message of `n` bytes: a one bit, zeros, and the length in bits as a 128-bit
number, up to a multiple of 128 bytes. -/
def padding (n : Nat) : Bytes :=
  0x80 :: Bytes.zeros ((239 - n % 128) % 128) ++ Bytes.ofNatBE 16 (8 * n)

/-- Compresses `n` blocks of 128 bytes from the front of the data. -/
def absorb : Nat → State → Bytes → State
  | 0, s, _ => s
  | n + 1, s, data => absorb n (compress s (data.take 128)) (data.drop 128)

/-- The state after the padded message. -/
def run (s : State) (message : Bytes) : State :=
  let n := message.length
  absorb (n / 128 + if n % 128 < 112 then 1 else 2) s (message ++ padding n)

/-- The state in big-endian order. -/
def State.toBytes (s : State) : Bytes :=
  [s.a, s.b, s.c, s.d, s.e, s.f, s.g, s.h].flatMap fun w => Bytes.ofNatBE 8 w.toNat

@[simp] theorem length_toBytes (s : State) : s.toBytes.length = 64 := by
  simp [State.toBytes]

end Firmware.Crypto.Sha512

namespace Firmware.Crypto

/-- The SHA-512 digest, 64 bytes. -/
def sha512 (message : Bytes) : Bytes := (Sha512.run Sha512.initial512 message).toBytes

/-- The SHA-384 digest, 48 bytes. -/
def sha384 (message : Bytes) : Bytes := (Sha512.run Sha512.initial384 message).toBytes.take 48

@[simp] theorem length_sha512 (message : Bytes) : (sha512 message).length = 64 :=
  Sha512.length_toBytes _

@[simp] theorem length_sha384 (message : Bytes) : (sha384 message).length = 48 := by
  simp [sha384]

end Firmware.Crypto
