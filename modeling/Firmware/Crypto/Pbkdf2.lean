import Firmware.Crypto.Hmac

/-!
# PBKDF2

Key derivation from a password by iterated HMAC (RFC 8018, section 5.2).
-/

namespace Firmware.Crypto

/-- `count` further iterations from `u`, all of them added to `acc`. -/
def pbkdf2Iterate (h : HashFunction) (password : Bytes) : Nat → Bytes → Bytes → Bytes
  | 0, _, acc => acc
  | count + 1, u, acc =>
    let u := hmac h password u
    pbkdf2Iterate h password count u (Bytes.xor acc u)

/-- Block `index`, counted from one, of the derived key. -/
def pbkdf2Block (h : HashFunction) (password salt : Bytes) (iterations index : Nat) : Bytes :=
  let u := hmac h password (salt ++ Bytes.ofNatBE 4 index)
  pbkdf2Iterate h password (iterations - 1) u u

/-- A key of `len` bytes derived from a password. -/
def pbkdf2 (h : HashFunction) (password salt : Bytes) (iterations len : Nat) : Bytes :=
  ((List.range ((len + h.digestSize - 1) / h.digestSize)).flatMap fun i =>
    pbkdf2Block h password salt iterations (i + 1)).take len

end Firmware.Crypto
