import Firmware.Crypto.Aes

/-!
# AES over whole messages

Counter mode with a 128-bit big-endian counter that starts at zero, and cipher block chaining with
padding (SP 800-38A, RFC 5652 section 6.3).  In counter mode encryption and decryption are the
same function, since both add the same key stream.
-/

namespace Firmware.Crypto.Aes

/-- The key stream block with a number. -/
def counterBlock (keys : List Bytes) (n : Nat) : Bytes := encryptBlock keys (Bytes.ofNatBE 16 n)

/-- Adds the key stream from block `n` on to the data. -/
def ctrFrom (keys : List Bytes) (n : Nat) : List Bytes → List Bytes
  | [] => []
  | block :: blocks =>
    Bytes.xor block (counterBlock keys n) :: ctrFrom keys (n + 1) blocks

/-- Counter mode with a zero initial counter. -/
def ctr (key data : Bytes) : Bytes := (ctrFrom (roundKeys key) 0 (Bytes.chunks 16 data)).flatten

/-- Encrypts blocks, each added to the ciphertext before it. -/
def cbcEncryptBlocks (keys : List Bytes) (before : Bytes) : List Bytes → List Bytes
  | [] => []
  | block :: blocks =>
    let out := encryptBlock keys (Bytes.xor block before)
    out :: cbcEncryptBlocks keys out blocks

/-- Decrypts blocks that were chained. -/
def cbcDecryptBlocks (keys : List Bytes) (before : Bytes) : List Bytes → List Bytes
  | [] => []
  | block :: blocks =>
    Bytes.xor (decryptBlock keys block) before :: cbcDecryptBlocks keys block blocks

/-- The data filled up to whole blocks; every added byte is the number of added bytes. -/
def padBlocks (data : Bytes) : Bytes :=
  let n := 16 - data.length % 16
  data ++ List.replicate n (UInt8.ofNat n)

/-- The data without the bytes that fill it up to whole blocks. -/
def unpadBlocks? (data : Bytes) : Option Bytes :=
  match data.getLast? with
  | none => none
  | some last =>
    let n := last.toNat
    let body := data.take (data.length - n)
    if 1 ≤ n ∧ n ≤ 16 ∧ data = body ++ List.replicate n last then some body else none

/-- Chained encryption with padding. -/
def cbcEncrypt (key iv data : Bytes) : Bytes :=
  (cbcEncryptBlocks (roundKeys key) iv (Bytes.chunks 16 (padBlocks data))).flatten

/-- Chained decryption, which fails if the length or the padding is wrong. -/
def cbcDecrypt? (key iv data : Bytes) : Option Bytes :=
  if data.length % 16 ≠ 0 then none
  else unpadBlocks? (cbcDecryptBlocks (roundKeys key) iv (Bytes.chunks 16 data)).flatten

end Firmware.Crypto.Aes
