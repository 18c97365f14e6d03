import Firmware.Crypto.Curve
import Firmware.Crypto.Hmac

/-!
# ECDSA

Signatures on a hash (FIPS 186-5, section 6).  The nonce is that of RFC 6979 with additional data,
so that it depends on the key, on the hash and on drawn bytes.
-/

namespace Firmware.Crypto.Ecdsa

/-- The hash cut, or filled up with zeros on the left, to the size of a field element.  A hash of
less than half that size is refused. -/
def fitHash? (c : Curve) (hash : Bytes) : Option Bytes :=
  if hash.length < c.fieldSize / 2 then none
  else some (Bytes.zeros (c.fieldSize - hash.length) ++ hash.take c.fieldSize)

/-! ## Nonces -/

/-- The state of the generator of nonces. -/
structure Generator where
  key : Bytes
  value : Bytes

namespace Generator

def next (h : HashFunction) (g : Generator) : Generator := { g with value := hmac h g.key g.value }

/-- The state with more data mixed in. -/
def update (h : HashFunction) (g : Generator) (data : Bytes) : Generator :=
  next h { g with key := hmac h g.key (g.value ++ data) }

/-- The state that the inputs lead to. -/
def init (h : HashFunction) (inputs : Bytes) : Generator :=
  let g : Generator := ⟨Bytes.zeros h.digestSize, List.replicate h.digestSize 1⟩
  (g.update h (0 :: inputs)).update h (1 :: inputs)

/-- The first of at most `fuel` candidates that is a scalar of the curve.  The digest has the size
of a scalar, so each candidate is one value. -/
def scalar? (h : HashFunction) (c : Curve) : Nat → Generator → Option Nat
  | 0, _ => none
  | fuel + 1, g =>
    let g := g.next h
    let k := Bytes.toNatBE (g.value.take c.fieldSize)
    if 0 < k ∧ k < c.n then some k else scalar? h c fuel (g.update h [0])

end Generator

/-- The nonce for a private scalar, a fitted hash and drawn bytes.  A candidate is refused with
negligible probability, so a hundred of them suffice. -/
def nonce? (h : HashFunction) (c : Curve) (d : Nat) (fitted drawn : Bytes) : Option Nat :=
  (Generator.init h (Bytes.ofNatBE c.fieldSize d ++ fitted ++ drawn)).scalar? h c 100

/-! ## Signatures -/

structure Signature where
  r : Nat
  s : Nat
deriving DecidableEq

/-- The signature of a fitted hash with a private scalar and drawn bytes. -/
def sign? (h : HashFunction) (c : Curve) (d : Nat) (fitted drawn : Bytes) : Option Signature := do
  let k ← nonce? h c d fitted drawn
  let point ← c.mulBase k
  let r := point.x % c.n
  let z := Bytes.toNatBE fitted % c.n
  let s := Modular.inverse k c.n * (z + r * d) % c.n
  if r = 0 ∨ s = 0 then none else some ⟨r, s⟩

/-- Whether a signature of a hash belongs to a public point. -/
def verify (c : Curve) (q : Curve.Point) (hash : Bytes) (sig : Signature) : Bool :=
  match fitHash? c hash with
  | none => false
  | some fitted =>
    if 0 < sig.r ∧ sig.r < c.n ∧ 0 < sig.s ∧ sig.s < c.n then
      let z := Bytes.toNatBE fitted % c.n
      let w := Modular.inverse sig.s c.n
      match c.mulAdd (z * w % c.n) (sig.r * w % c.n) q with
      | none => false
      | some point => point.x % c.n == sig.r
    else false

end Firmware.Crypto.Ecdsa
