import Firmware.Crypto.Hash

/-!
# HMAC

Keyed hashing (FIPS 198-1).
-/

namespace Firmware.Crypto

/-- The key as one block: a longer key is hashed, a shorter one is filled up with zeros. -/
def HashFunction.keyBlock (h : HashFunction) (key : Bytes) : Bytes :=
  let key := if h.blockSize < key.length then h.digest key else key
  Bytes.extendTo h.blockSize 0 key

/-- The keyed hash of a message. -/
def hmac (h : HashFunction) (key message : Bytes) : Bytes :=
  let block := h.keyBlock key
  h.digest (block.map (· ^^^ 0x5c) ++ h.digest (block.map (· ^^^ 0x36) ++ message))

end Firmware.Crypto
