import Firmware.Crypto.Sha256
import Firmware.Crypto.Sha512

/-!
# Hash functions as values

The constructions on top of a hash function (HMAC, key derivation, mask generation) take it as an
argument together with its two sizes.
-/

namespace Firmware.Crypto

/-- A hash function with the sizes of its blocks and digests in bytes. -/
structure HashFunction where
  blockSize : Nat
  digestSize : Nat
  digest : Bytes → Bytes

namespace HashFunction

def sha224 : HashFunction := ⟨64, 28, Crypto.sha224⟩

def sha256 : HashFunction := ⟨64, 32, Crypto.sha256⟩

def sha384 : HashFunction := ⟨128, 48, Crypto.sha384⟩

def sha512 : HashFunction := ⟨128, 64, Crypto.sha512⟩

end HashFunction

end Firmware.Crypto
