import Firmware.Crypto.AesModes
import Firmware.Proofs.Crypto.Aes

/-!
# Whole messages under AES

`ctr_eq_xor` : counter mode adds a key stream that does not depend on the data, and of which only so
much is used as there are data; so counter mode keeps the length, and `ctr_ctr` : applied twice, it
gives the data back, whatever their length.

`cbcEncrypt_spec` : chained decryption undoes chained encryption.  The block before is what
is carried along; it has the size of a block, so adding it twice takes it away.
-/

namespace Firmware.Crypto.Aes

variable {keys : List Bytes} {key data : Bytes}

/-- The key stream of a number of blocks from block `n` on. -/
def keyStream (keys : List Bytes) (n blocks : Nat) : Bytes :=
  ((List.range' n blocks).map (counterBlock keys)).flatten

theorem keyStream_succ (keys : List Bytes) (n blocks : Nat) :
    keyStream keys n (blocks + 1) = counterBlock keys n ++ keyStream keys (n + 1) blocks := by
  rw [keyStream, List.range'_succ, List.map_cons, List.flatten_cons]
  rfl

theorem length_counterBlock (hkeys : ∀ k ∈ keys, k.length = 16) (n : Nat) :
    (counterBlock keys n).length = 16 :=
  length_encryptBlock hkeys (Bytes.length_ofNatBE 16 n)

theorem length_keyStream (hkeys : ∀ k ∈ keys, k.length = 16) (n blocks : Nat) :
    (keyStream keys n blocks).length = blocks * 16 := by
  have hblocks : ∀ b ∈ (List.range' n blocks).map (counterBlock keys), b.length = 16 := by
    intro b hb
    obtain ⟨i, -, rfl⟩ := List.mem_map.mp hb
    exact length_counterBlock hkeys i
  rw [keyStream, Bytes.length_flatten_of_length hblocks, List.length_map, List.length_range']

/-- The data block by block: only the last block may be shorter than its part of the stream. -/
theorem flatten_ctrFrom (hkeys : ∀ k ∈ keys, k.length = 16) {blocks : Nat} (n : Nat)
    (hdata : data.length ≤ blocks * 16) :
    (ctrFrom keys n (Bytes.chunks 16 data)).flatten = Bytes.xor data (keyStream keys n blocks) := by
  induction blocks generalizing n data with
  | zero =>
      rw [Nat.zero_mul, Nat.le_zero, List.length_eq_zero_iff] at hdata
      rw [hdata, Bytes.chunks_nil]
      rfl
  | succ blocks ih =>
      by_cases hempty : data = []
      · rw [hempty, Bytes.chunks_nil]
        rfl
      · have hblock := length_counterBlock hkeys n
        have hdrop : (data.drop 16).length ≤ blocks * 16 := by
          rw [List.length_drop]
          omega
        rw [Bytes.chunks_eq_cons (by decide) hempty, ctrFrom, List.flatten_cons, ih _ hdrop,
          keyStream_succ]
        by_cases hlong : 16 ≤ data.length
        · have htake : (data.take 16).length = (counterBlock keys n).length := by
            rw [List.length_take, Nat.min_eq_left hlong, hblock]
          rw [← Bytes.xor_append htake, List.take_append_drop]
        · have hshort : data.length ≤ 16 := Nat.le_of_not_le hlong
          have hfits : data.length ≤ (counterBlock keys n).length := by rwa [hblock]
          rw [List.take_of_length_le hshort, List.drop_eq_nil_of_le hshort,
            Bytes.xor_append_right _ hfits]
          exact List.append_nil _

theorem ctr_eq_xor {keyWords blocks : Nat} (hpos : 0 < keyWords) (hkey : key.length = keyWords * 4)
    (hdata : data.length ≤ blocks * 16) :
    ctr key data = Bytes.xor data (keyStream (roundKeys key) 0 blocks) :=
  flatten_ctrFrom (length_of_mem_roundKeys hpos hkey) 0 hdata

theorem length_ctr {keyWords : Nat} (hpos : 0 < keyWords) (hkey : key.length = keyWords * 4)
    (data : Bytes) : (ctr key data).length = data.length := by
  have hdata : data.length ≤ data.length * 16 := Nat.le_mul_of_pos_right _ (by decide)
  rw [ctr_eq_xor hpos hkey hdata]
  apply Bytes.length_xor_of_le
  rwa [length_keyStream (length_of_mem_roundKeys hpos hkey)]

/-- Encryption and decryption are the same function. -/
theorem ctr_ctr {keyWords : Nat} (hpos : 0 < keyWords) (hkey : key.length = keyWords * 4)
    (data : Bytes) : ctr key (ctr key data) = data := by
  have hdata : data.length ≤ data.length * 16 := Nat.le_mul_of_pos_right _ (by decide)
  have hstream : data.length ≤ (keyStream (roundKeys key) 0 data.length).length := by
    rwa [length_keyStream (length_of_mem_roundKeys hpos hkey)]
  have hcipher : (ctr key data).length ≤ data.length * 16 := by
    rwa [length_ctr hpos hkey]
  rw [ctr_eq_xor hpos hkey hcipher, ctr_eq_xor hpos hkey hdata, Bytes.xor_xor hstream]

/-! ## Cipher block chaining -/

/-- Chained encryption keeps the number of blocks and their size, and can be undone. -/
theorem cbcEncryptBlocks_spec (hkeys : ∀ k ∈ keys, k.length = 16) {before : Bytes}
    (hbefore : before.length = 16) {blocks : List Bytes} (hblocks : ∀ b ∈ blocks, b.length = 16) :
    (cbcEncryptBlocks keys before blocks).length = blocks.length ∧
      (∀ b ∈ cbcEncryptBlocks keys before blocks, b.length = 16) ∧
        cbcDecryptBlocks keys before (cbcEncryptBlocks keys before blocks) = blocks := by
  induction blocks generalizing before with
  | nil => exact ⟨rfl, nofun, rfl⟩
  | cons block blocks ih =>
      rw [List.forall_mem_cons] at hblocks
      have hadded : (Bytes.xor block before).length = 16 := length_xor_key hblocks.1 hbefore
      have hout := length_encryptBlock hkeys hadded
      obtain ⟨hcount, hlengths, hback⟩ := ih hout hblocks.2
      rw [cbcEncryptBlocks, cbcDecryptBlocks, hback, decryptBlock_encryptBlock hkeys hadded,
        xor_key_xor_key hblocks.1 hbefore]
      exact ⟨congrArg Nat.succ hcount, List.forall_mem_cons.mpr ⟨hout, hlengths⟩, rfl⟩

theorem length_padBlocks (data : Bytes) : (padBlocks data).length = (data.length / 16 + 1) * 16 := by
  rw [padBlocks, List.length_append, List.length_replicate]
  omega

theorem unpadBlocks?_padBlocks (data : Bytes) : unpadBlocks? (padBlocks data) = some data := by
  have hcount : 1 ≤ 16 - data.length % 16 ∧ 16 - data.length % 16 ≤ 16 := by omega
  unfold padBlocks
  generalize 16 - data.length % 16 = n at hcount
  have hn : (UInt8.ofNat n).toNat = n :=
    UInt8.toNat_ofNat_of_lt' (Nat.lt_of_le_of_lt hcount.2 (by decide))
  have hlast : (data ++ List.replicate n (UInt8.ofNat n)).getLast? = some (UInt8.ofNat n) := by
    obtain ⟨m, hm⟩ := Nat.exists_eq_add_of_le' hcount.1
    rw [hm, List.replicate_succ', ← List.append_assoc, List.getLast?_concat]
  have hbody : (data ++ List.replicate n (UInt8.ofNat n)).take
      ((data ++ List.replicate n (UInt8.ofNat n)).length - n) = data := by
    rw [List.length_append, List.length_replicate, Nat.add_sub_cancel, List.take_left]
  unfold unpadBlocks?
  rw [hlast]
  dsimp only
  rw [hn, hbody]
  exact if_pos ⟨hcount.1, hcount.2, rfl⟩

/-- The blocks of an encrypted message. -/
theorem cbcEncrypt_spec {iv : Bytes} {keyWords : Nat} (hpos : 0 < keyWords)
    (hkey : key.length = keyWords * 4) (hiv : iv.length = 16) (data : Bytes) :
    (cbcEncrypt key iv data).length = (data.length / 16 + 1) * 16 ∧
      cbcDecrypt? key iv (cbcEncrypt key iv data) = some data := by
  have hkeys := length_of_mem_roundKeys hpos hkey
  have hchunks := Bytes.chunks_of_length (by decide) (length_padBlocks data)
  obtain ⟨hcount, hlengths, hback⟩ := cbcEncryptBlocks_spec hkeys hiv hchunks.2
  have hlength : (cbcEncrypt key iv data).length = (data.length / 16 + 1) * 16 := by
    rw [cbcEncrypt, Bytes.length_flatten_of_length hlengths, hcount, hchunks.1]
  have hwhole : (cbcEncrypt key iv data).length % 16 = 0 := by
    rw [hlength, Nat.mul_mod_left]
  refine ⟨hlength, ?_⟩
  rw [cbcDecrypt?, if_neg fun hcut => hcut hwhole, cbcEncrypt,
    Bytes.chunks_flatten (by decide) hlengths, hback, Bytes.flatten_chunks (by decide),
    unpadBlocks?_padBlocks]

end Firmware.Crypto.Aes
