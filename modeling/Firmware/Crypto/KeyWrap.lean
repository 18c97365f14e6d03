import Firmware.Crypto.Aes

/-!
# AES key wrap

Wrapping of keys under a key-encryption key (RFC 3394).  The wrapped form is eight bytes longer
than the key, and unwrapping detects with those bytes whether the key-encryption key is the right
one.
-/

namespace Firmware.Crypto.KeyWrap

/-- The integrity check value. -/
def initialValue : Bytes := List.replicate 8 0xa6

/-- One pass over the registers; `t` counts the steps from one. -/
def wrapPass (keys : List Bytes) : Nat → Bytes → List Bytes → Bytes × List Bytes
  | _, a, [] => (a, [])
  | t, a, r :: rs =>
    let b := Aes.encryptBlock keys (a ++ r)
    let (a, rs) := wrapPass keys (t + 1) (Bytes.xor (b.take 8) (Bytes.ofNatBE 8 t)) rs
    (a, b.drop 8 :: rs)

def wrapPasses (keys : List Bytes) : Nat → Nat → Bytes → List Bytes → Bytes × List Bytes
  | 0, _, a, rs => (a, rs)
  | passes + 1, t, a, rs =>
    let (a, rs) := wrapPass keys t a rs
    wrapPasses keys passes (t + rs.length) a rs

/-- The key data wrapped under a key-encryption key. -/
def wrap (kek data : Bytes) : Bytes :=
  let (a, rs) := wrapPasses (Aes.roundKeys kek) 6 1 initialValue (Bytes.chunks 8 data)
  a ++ rs.flatten

/-- One pass back over the registers, which are given in reverse order; `t` counts down. -/
def unwrapPass (keys : List Bytes) : Nat → Bytes → List Bytes → Bytes × List Bytes
  | _, a, [] => (a, [])
  | t, a, r :: rs =>
    let b := Aes.decryptBlock keys (Bytes.xor a (Bytes.ofNatBE 8 t) ++ r)
    let (a, rs) := unwrapPass keys (t - 1) (b.take 8) rs
    (a, b.drop 8 :: rs)

def unwrapPasses (keys : List Bytes) : Nat → Nat → Bytes → List Bytes → Bytes × List Bytes
  | 0, _, a, rs => (a, rs)
  | passes + 1, t, a, rs =>
    let (a, rs) := unwrapPass keys t a rs
    unwrapPasses keys passes (t - rs.length) a rs

/-- The key data in its wrapped form, if the integrity check value comes out. -/
def unwrap? (kek wrapped : Bytes) : Option Bytes :=
  let rs := (Bytes.chunks 8 (wrapped.drop 8)).reverse
  let (a, rs) := unwrapPasses (Aes.roundKeys kek) 6 (6 * rs.length) (wrapped.take 8) rs
  if a = initialValue then some rs.reverse.flatten else none

end Firmware.Crypto.KeyWrap
