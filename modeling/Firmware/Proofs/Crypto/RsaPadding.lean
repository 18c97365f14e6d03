import Firmware.Crypto.RsaPadding
import Firmware.Proofs.Bytes
import Firmware.Proofs.Crypto.Rsa

/-!
# RSA padding schemes

`verifyPss_of_signPss?`, `verifyPkcs1_of_signPkcs1?` : a valid key accepts what it signs, with
either padding.  This rests on nothing but the check that the private primitive makes of its own
result, so it does not take the factors to be prime.

`exists_signPss?`, `decryptOaep?_of_encryptOaep?` : a valid key whose factors are distinct primes
signs every hash, and it decrypts what its public half encrypts.

In PSS and OAEP a block is masked with a stream made of another part of the message, so each is
undone by computing the same stream once more.  PKCS #1 v1.5 signatures have no randomness, and
their padded form is computed again instead of being taken apart.
-/

namespace Firmware.Crypto.Rsa

/-! ## The mask and the size of a modulus -/

theorem length_mask (seed : Bytes) (len : Nat) : (mask seed len).length = len := by
  have hblocks : ∀ blocks : List Nat, (blocks.flatMap fun i =>
      sha256 (seed ++ Bytes.ofNatBE 4 i)).length = blocks.length * hashSize := by
    intro blocks
    induction blocks with
    | nil => rfl
    | cons i blocks ih =>
        rw [List.flatMap_cons, List.length_append, ih, length_sha256, List.length_cons,
          Nat.succ_mul, Nat.add_comm]
        rfl
  rw [mask, List.length_take, hblocks, List.length_range]
  apply Nat.min_eq_left
  have hsize : hashSize = 32 := rfl
  rw [hsize]
  omega

theorem bitLength_spec {n : Nat} (h : 0 < n) :
    2 ^ (bitLength n - 1) ≤ n ∧ n < 2 ^ bitLength n := by
  have hne : n ≠ 0 := Nat.ne_of_gt h
  unfold bitLength
  rw [if_neg hne]
  exact ⟨Nat.log2_self_le hne, Nat.lt_log2_self⟩

theorem lt_pow_byteLength {n : Nat} (h : 0 < n) : n < 256 ^ byteLength n := by
  have hbits : bitLength n ≤ 8 * byteLength n := by
    unfold byteLength
    omega
  calc n < 2 ^ bitLength n := (bitLength_spec h).2
    _ ≤ 2 ^ (8 * byteLength n) := Nat.pow_le_pow_right (by decide) hbits
    _ = 256 ^ byteLength n := by rw [Nat.pow_mul]

/-- A string that is a byte shorter than the modulus denotes a smaller number. -/
theorem pow_byteLength_le {n : Nat} (h : 0 < n) : 256 ^ (byteLength n - 1) ≤ n := by
  have hbits : 8 * (byteLength n - 1) ≤ bitLength n - 1 := by
    unfold byteLength
    omega
  calc 256 ^ (byteLength n - 1) = 2 ^ (8 * (byteLength n - 1)) := by rw [Nat.pow_mul]
    _ ≤ 2 ^ (bitLength n - 1) := Nat.pow_le_pow_right (by decide) hbits
    _ ≤ n := (bitLength_spec h).1

/-! ## PSS signatures -/

theorem length_clearTop (bits : Nat) (bs : Bytes) : (clearTop bits bs).length = bs.length := by
  cases bs with
  | nil => rfl
  | cons b bs => rfl

theorem clearTop_clearTop (bits : Nat) (bs : Bytes) :
    clearTop bits (clearTop bits bs) = clearTop bits bs := by
  cases bs with
  | nil => rfl
  | cons b bs => rw [clearTop, clearTop, UInt8.and_assoc, UInt8.and_self]

theorem and_xor_and_xor (a b k : UInt8) : ((a ^^^ b) &&& k ^^^ b) &&& k = a &&& k := by
  apply UInt8.toNat_inj.mp
  simp only [UInt8.toNat_and, UInt8.toNat_xor, Nat.and_xor_distrib_right, Nat.and_assoc,
    Nat.and_self, Nat.xor_assoc, Nat.xor_self, Nat.xor_zero]

/-- Masking a masked block again, with the top bits cleared each time, clears its top bits. -/
theorem clearTop_xor_clearTop_xor (bits : Nat) {a b : Bytes} (h : a.length ≤ b.length) :
    clearTop bits (Bytes.xor (clearTop bits (Bytes.xor a b)) b) = clearTop bits a := by
  cases a with
  | nil => rfl
  | cons x a =>
      cases b with
      | nil => exact absurd h (Nat.not_succ_le_zero _)
      | cons y b =>
          have htail := Bytes.xor_xor (Nat.le_of_succ_le_succ h)
          have hhead := and_xor_and_xor x y (UInt8.ofNat (Nat.pow 2 (8 - bits) - 1))
          show _ :: Bytes.xor (Bytes.xor a b) b = _ :: a
          rw [htail]
          exact congrArg (· :: a) hhead

/-- A block that starts with a zero or a one keeps its first bits cleared. -/
theorem clearTop_dataBlock {bits : Nat} (hbits : bits < 8) (n : Nat) (salt : Bytes) :
    clearTop bits (Bytes.zeros n ++ [1] ++ salt) = Bytes.zeros n ++ [1] ++ salt := by
  cases n with
  | zero =>
      have hone : ∀ bits < 8, (1 : UInt8) &&& UInt8.ofNat (Nat.pow 2 (8 - bits) - 1) = 1 := by
        decide
      exact congrArg (· :: salt) (hone bits hbits)
  | succ n =>
      show (0 &&& _) :: (Bytes.zeros n ++ [1] ++ salt) = 0 :: (Bytes.zeros n ++ [1] ++ salt)
      rw [UInt8.zero_and]

/-- The parts of a padded form are found in it again by their lengths. -/
theorem parts_of_padded {masked h : Bytes} {size : Nat} (hsize : masked.length = size)
    (hlength : h.length = hashSize) :
    (masked ++ h ++ [0xbc]).take size = masked ∧
      ((masked ++ h ++ [0xbc]).drop size).take hashSize = h ∧
      (masked ++ h ++ [0xbc]).getLast? = some 0xbc := by
  refine ⟨?_, ?_, ?_⟩
  · rw [List.append_assoc, ← hsize, List.take_left]
  · rw [List.append_assoc, ← hsize, List.drop_left, ← hlength, List.take_left]
  · rw [List.getLast?_append]
    rfl

/-- The block that is masked, with its salt at its end. -/
theorem dataBlock_spec {salt : Bytes} (hsalt : salt.length = saltSize) (n : Nat) :
    (Bytes.zeros n ++ [1] ++ salt).length = n + 1 + saltSize ∧
      (Bytes.zeros n ++ [1] ++ salt).drop (n + 1) = salt := by
  have hfront : (Bytes.zeros n ++ [(1 : UInt8)]).length = n + 1 := by
    rw [List.length_append, List.length_singleton]
    exact congrArg (· + 1) List.length_replicate
  constructor
  · rw [List.length_append, hfront, hsalt]
  · rw [← hfront, List.drop_left]

/-- The padded form of a hash has its size and belongs to that hash. -/
theorem pssMatches_of_pssEncode? {hash salt padded : Bytes} {bits : Nat}
    (hsalt : salt.length = saltSize) (h : pssEncode? hash salt bits = some padded) :
    padded.length = (bits + 7) / 8 ∧ pssMatches hash padded bits = true := by
  have hunused : 8 * ((bits + 7) / 8) - bits < 8 := by omega
  unfold pssEncode? at h
  unfold pssMatches
  dsimp only at h ⊢
  generalize (bits + 7) / 8 = size at h hunused ⊢
  generalize 8 * size - bits = unused at h hunused ⊢
  split at h
  · cases h
  · rename_i hroom
    rw [not_or, not_not, hsalt] at hroom
    obtain ⟨hhash, hsize⟩ := hroom
    obtain ⟨fill, rfl⟩ := Nat.exists_eq_add_of_le (Nat.le_of_not_lt hsize)
    have hfill : hashSize + saltSize + 2 + fill - salt.length - hashSize - 2 = fill := by
      rw [hsalt]
      omega
    have hblock : hashSize + saltSize + 2 + fill - hashSize - 1 = fill + 1 + saltSize := by omega
    rw [hfill] at h
    obtain ⟨hlength, hdrop⟩ := dataBlock_spec hsalt fill
    have hclear := clearTop_dataBlock hunused fill salt
    generalize hdb : Bytes.zeros fill ++ [1] ++ salt = db at h hlength hdrop hclear
    have hmask : db.length ≤ (mask (pssHash hash salt) db.length).length := by rw [length_mask]
    have hmasked : (clearTop unused (Bytes.xor db (mask (pssHash hash salt) db.length))).length =
        fill + 1 + saltSize := by
      rw [length_clearTop, Bytes.length_xor_of_le hmask, hlength]
    have hundo := clearTop_xor_clearTop_xor unused hmask
    rw [hclear] at hundo
    have hpss : (pssHash hash salt).length = hashSize := length_sha256 _
    obtain ⟨htake, hhashPart, hlast⟩ := parts_of_padded hmasked hpss
    have hsaltStart : db.length - saltSize = fill + 1 := by
      rw [hlength]
      exact Nat.add_sub_cancel _ _
    obtain rfl := Option.some.inj h
    constructor
    · rw [List.length_append, List.length_append, hmasked, hpss, List.length_singleton]
      omega
    · rw [hblock, htake, hhashPart, hlast, hmasked, ← hlength, hundo, hsaltStart, hdrop, hhash,
        Nat.add_sub_cancel, hdb, clearTop_clearTop]
      simp

/-- The number of a padded form, written in the size of the modulus, ends with that form. -/
theorem drop_ofNatBE_toNatBE {bs : Bytes} {size : Nat} (h : bs.length ≤ size) :
    (Bytes.ofNatBE size (Bytes.toNatBE bs)).drop (size - bs.length) = bs := by
  obtain ⟨fill, rfl⟩ := Nat.exists_eq_add_of_le' h
  have hzeros : (Bytes.zeros fill).length = fill := List.length_replicate
  have hlength : (Bytes.zeros fill ++ bs).length = fill + bs.length := by
    rw [List.length_append, hzeros]
  have hwritten : Bytes.ofNatBE (fill + bs.length) (Bytes.toNatBE bs) = Bytes.zeros fill ++ bs := by
    rw [← Bytes.toNatBE_zeros_append fill bs, ← hlength]
    exact Bytes.ofNatBE_toNatBE _
  have hskip : (Bytes.zeros fill ++ bs).drop fill = bs := by
    rw [List.drop_append_of_le_length (Nat.le_of_eq hzeros.symm), List.drop_of_length_le]
    · exact List.nil_append bs
    · exact Nat.le_of_eq hzeros
  rw [hwritten, Nat.add_sub_cancel, hskip]

theorem verifyPss_of_signPss? {key : PrivateKey} (hkey : key.Sound) {hash salt signature : Bytes}
    (hsalt : salt.length = saltSize) (h : key.signPss? hash salt = some signature) :
    key.toPublic.verifyPss hash signature = true := by
  obtain ⟨padded, hpadded, h⟩ := Option.bind_eq_some_iff.mp h
  obtain ⟨m, hm, h⟩ := Option.bind_eq_some_iff.mp h
  obtain rfl := Option.some.inj h
  obtain ⟨-, hpower, happly⟩ := applyChecked?_eq_some_iff.mp hm
  have hlt : m < key.modulus := hpower ▸ power_lt hkey _
  have hread : Bytes.toNatBE (Bytes.ofNatBE key.size m) = m :=
    Bytes.toNatBE_ofNatBE_of_lt (Nat.lt_trans hlt (lt_pow_byteLength hkey.modulus_pos))
  obtain ⟨hlength, hmatches⟩ := pssMatches_of_pssEncode? hsalt hpadded
  have hfits : padded.length ≤ key.toPublic.size := by
    rw [hlength]
    show _ ≤ (bitLength key.modulus + 7) / 8
    omega
  have hback := drop_ofNatBE_toNatBE hfits
  rw [hlength] at hback
  unfold PublicKey.verifyPss
  dsimp only
  rw [hread, happly, Bytes.length_ofNatBE]
  rw [Bool.and_eq_true]
  exact ⟨beq_self_eq_true _, (congrArg (pssMatches hash · _) hback).trans hmatches⟩

/-! ### Keys that sign every hash -/

theorem toNatBE_clearTop_append_lt {bits : Nat} (hbits : bits < 8) {bs : Bytes} (hbs : bs ≠ [])
    (rest : Bytes) :
    Bytes.toNatBE (clearTop bits bs ++ rest) < 2 ^ (8 * (bs.length + rest.length) - bits) := by
  cases bs with
  | nil => exact absurd rfl hbs
  | cons b bs =>
      have hmask : (UInt8.ofNat (Nat.pow 2 (8 - bits) - 1)).toNat < 2 ^ (8 - bits) := by
        revert bits
        decide
      have hhead : (b &&& UInt8.ofNat (Nat.pow 2 (8 - bits) - 1)).toNat + 1 ≤ 2 ^ (8 - bits) := by
        rw [UInt8.toNat_and]
        exact Nat.lt_of_le_of_lt Nat.and_le_right hmask
      have htail := Bytes.toNatBE_lt (bs ++ rest)
      rw [clearTop, List.cons_append, Bytes.toNatBE_cons]
      generalize (b &&& UInt8.ofNat (Nat.pow 2 (8 - bits) - 1)).toNat = head at hhead
      have hsplit : 8 * ((b :: bs).length + rest.length) - bits =
          (8 - bits) + 8 * (bs ++ rest).length := by
        rw [List.length_cons, List.length_append]
        omega
      calc head * 256 ^ (bs ++ rest).length + Bytes.toNatBE (bs ++ rest)
          < head * 256 ^ (bs ++ rest).length + 256 ^ (bs ++ rest).length :=
            Nat.add_lt_add_left htail _
        _ = (head + 1) * 256 ^ (bs ++ rest).length := by rw [Nat.succ_mul]
        _ ≤ 2 ^ (8 - bits) * 256 ^ (bs ++ rest).length := Nat.mul_le_mul_right _ hhead
        _ = 2 ^ (8 * ((b :: bs).length + rest.length) - bits) := by
            rw [hsplit, Nat.pow_add, Nat.pow_mul]

/-- A hash has a padded form where there is room for it, and that form has no more than the given
number of bits. -/
theorem exists_pssEncode? {hash salt : Bytes} {bits : Nat} (hhash : hash.length = hashSize)
    (hroom : hashSize + salt.length + 2 ≤ (bits + 7) / 8) :
    ∃ padded, pssEncode? hash salt bits = some padded ∧ Bytes.toNatBE padded < 2 ^ bits := by
  have hunused : 8 * ((bits + 7) / 8) - bits < 8 := by omega
  have hbits : 8 * ((bits + 7) / 8) - (8 * ((bits + 7) / 8) - bits) = bits := by omega
  unfold pssEncode?
  dsimp only
  generalize (bits + 7) / 8 = size at hroom hunused hbits ⊢
  have hfits : ¬(hash.length ≠ hashSize ∨ size < hashSize + salt.length + 2) := by omega
  rw [if_neg hfits]
  refine ⟨_, rfl, ?_⟩
  have hpss : (pssHash hash salt).length = hashSize := length_sha256 _
  have hzeros : (Bytes.zeros (size - salt.length - hashSize - 2)).length =
      size - salt.length - hashSize - 2 := List.length_replicate
  generalize hdb : Bytes.zeros (size - salt.length - hashSize - 2) ++ [1] ++ salt = db
  have hlength : db.length + hashSize + 1 = size := by
    rw [← hdb, List.length_append, List.length_append, hzeros, List.length_singleton]
    omega
  have hmasked : (Bytes.xor db (mask (pssHash hash salt) db.length)).length = db.length :=
    Bytes.length_xor_of_le (Nat.le_of_eq (length_mask _ _).symm)
  have hne : Bytes.xor db (mask (pssHash hash salt) db.length) ≠ [] := by
    apply List.ne_nil_of_length_pos
    rw [hmasked, ← hdb, List.length_append, List.length_append, List.length_singleton]
    omega
  have hlt := toNatBE_clearTop_append_lt hunused hne (pssHash hash salt ++ [0xbc])
  rwa [← List.append_assoc, hmasked, List.length_append, hpss, List.length_singleton,
    ← Nat.add_assoc, hlength, hbits] at hlt

/-- A valid key whose factors are distinct primes signs every hash with every salt, if there is room
for them. -/
theorem exists_signPss? {key : PrivateKey} (hkey : key.HasPrimes) {hash salt : Bytes}
    (hhash : hash.length = hashSize) (hroom : hashSize + salt.length + 3 ≤ key.size) :
    ∃ signature, key.signPss? hash salt = some signature ∧ signature.length = key.size := by
  have hbits : hashSize + salt.length + 2 ≤ (bitLength key.modulus - 1 + 7) / 8 := by
    have hsize : key.size = (bitLength key.modulus + 7) / 8 := rfl
    omega
  obtain ⟨padded, hpadded, hlt⟩ := exists_pssEncode? hhash hbits
  have hreduced := Nat.lt_of_lt_of_le hlt (bitLength_spec hkey.sound.modulus_pos).1
  obtain ⟨m, hm⟩ := exists_applyChecked? hkey hreduced
  refine ⟨Bytes.ofNatBE key.size m, ?_, Bytes.length_ofNatBE _ _⟩
  exact Option.bind_eq_some_iff.mpr ⟨padded, hpadded,
    Option.bind_eq_some_iff.mpr ⟨m, hm, rfl⟩⟩

/-! ## PKCS #1 v1.5 signatures -/

/-- The padded form of a hash has the size of the modulus. -/
theorem length_of_pkcs1Encode? {hash padded : Bytes} {size : Nat}
    (h : pkcs1Encode? hash size = some padded) : padded.length = size := by
  unfold pkcs1Encode? at h
  split at h
  · cases h
  · rename_i hroom
    rw [not_or, not_not] at hroom
    obtain ⟨hhash, hsize⟩ := hroom
    have hinfo : digestInfo.length = 19 := rfl
    obtain rfl := Option.some.inj h
    simp only [List.length_append, List.length_replicate, List.length_cons, List.length_nil, hhash]
    omega

theorem verifyPkcs1_of_signPkcs1? {key : PrivateKey} (hkey : key.Sound) {hash signature : Bytes}
    (h : key.signPkcs1? hash = some signature) :
    key.toPublic.verifyPkcs1 hash signature = true := by
  obtain ⟨padded, hpadded, h⟩ := Option.bind_eq_some_iff.mp h
  obtain ⟨m, hm, h⟩ := Option.bind_eq_some_iff.mp h
  obtain rfl := Option.some.inj h
  obtain ⟨-, hpower, happly⟩ := applyChecked?_eq_some_iff.mp hm
  have hlt : m < key.modulus := hpower ▸ power_lt hkey _
  have hread : Bytes.toNatBE (Bytes.ofNatBE key.size m) = m :=
    Bytes.toNatBE_ofNatBE_of_lt (Nat.lt_trans hlt (lt_pow_byteLength hkey.modulus_pos))
  have hback : Bytes.ofNatBE key.toPublic.size (Bytes.toNatBE padded) = padded := by
    have hlength : padded.length = key.toPublic.size := length_of_pkcs1Encode? hpadded
    rw [← hlength]
    exact Bytes.ofNatBE_toNatBE _
  have hencode : pkcs1Encode? hash key.toPublic.size = some padded := hpadded
  unfold PublicKey.verifyPkcs1
  dsimp only
  rw [hread, happly, hback, hencode, Bytes.length_ofNatBE]
  rw [Bool.and_eq_true, Bool.and_eq_true, decide_eq_true_eq]
  exact ⟨⟨beq_self_eq_true _, hlt⟩, beq_self_eq_true _⟩

/-! ## OAEP encryption -/

theorem dropWhile_zeros (n : Nat) (message : Bytes) :
    (Bytes.zeros n ++ [1] ++ message).dropWhile (· == 0) = 1 :: message := by
  induction n with
  | zero => rfl
  | succ n ih => exact ih

/-- Unmasking and skipping the fill gives the message back. -/
theorem oaepDecode?_eq_some {message seed db maskedDb : Bytes} {fill : Nat}
    (hseed : seed.length = hashSize)
    (hdb : db = labelHash ++ (Bytes.zeros fill ++ [1] ++ message))
    (hmasked : maskedDb = Bytes.xor db (mask seed db.length)) :
    oaepDecode? (0 :: (Bytes.xor seed (mask maskedDb hashSize) ++ maskedDb)) = some message := by
  have hlabel : labelHash.length = hashSize := length_sha256 []
  have hstream : seed.length ≤ (mask maskedDb hashSize).length := by rw [length_mask, hseed]
  have hmask : db.length ≤ (mask seed db.length).length := by rw [length_mask]
  have hmaskedSeed : (Bytes.xor seed (mask maskedDb hashSize)).length = hashSize := by
    rw [Bytes.length_xor_of_le hstream, hseed]
  have hlength : maskedDb.length = db.length := by rw [hmasked, Bytes.length_xor_of_le hmask]
  have hundo : Bytes.xor maskedDb (mask seed maskedDb.length) = db := by
    rw [hlength, hmasked, Bytes.xor_xor hmask]
  have hfront : db.take hashSize = labelHash := by rw [hdb, ← hlabel, List.take_left]
  have hback : db.drop hashSize = Bytes.zeros fill ++ [1] ++ message := by
    rw [hdb, ← hlabel, List.drop_left]
  have htake : (Bytes.xor seed (mask maskedDb hashSize) ++ maskedDb).take hashSize =
      Bytes.xor seed (mask maskedDb hashSize) :=
    List.take_left' hmaskedSeed
  have hdrop : (Bytes.xor seed (mask maskedDb hashSize) ++ maskedDb).drop hashSize = maskedDb :=
    List.drop_left' hmaskedSeed
  rw [oaepDecode?, hdrop, htake, Bytes.xor_xor hstream, hundo, hback, dropWhile_zeros]
  exact if_pos ⟨rfl, hfront, rfl⟩

/-- A ciphertext is the power of a padded form that starts with a zero byte, has the size of the
modulus, and can be decoded. -/
theorem exists_padded_of_encryptOaep? {key : PublicKey} {message seed ciphertext : Bytes}
    (hseed : seed.length = hashSize) (h : key.encryptOaep? message seed = some ciphertext) :
    2 * hashSize + 2 ≤ key.size ∧ ∃ rest, rest.length + 1 = key.size ∧
      oaepDecode? (0 :: rest) = some message ∧
      ciphertext = Bytes.ofNatBE key.size (key.apply (Bytes.toNatBE (0 :: rest))) := by
  unfold PublicKey.encryptOaep? at h
  split at h
  · cases h
  · rename_i hroom
    have hlabel : labelHash.length = hashSize := length_sha256 []
    obtain ⟨fill, hfill⟩ := Nat.exists_eq_add_of_le' (Nat.le_of_not_lt hroom)
    have hrest : key.size - message.length - 2 * hashSize - 2 = fill := by omega
    have hzeros : (Bytes.zeros fill).length = fill := List.length_replicate
    dsimp only at h
    rw [hrest, List.append_assoc, List.append_assoc, ← List.append_assoc (Bytes.zeros fill),
      List.cons_append] at h
    generalize hdb : labelHash ++ (Bytes.zeros fill ++ [1] ++ message) = db at h
    generalize hmasked : Bytes.xor db (mask seed db.length) = maskedDb at h
    refine ⟨by omega, Bytes.xor seed (mask maskedDb hashSize) ++ maskedDb, ?_,
      oaepDecode?_eq_some hseed hdb.symm hmasked.symm, (Option.some.inj h).symm⟩
    rw [List.length_append, Bytes.length_xor, length_mask, hseed, ← hmasked, Bytes.length_xor,
      length_mask, Nat.min_self, Nat.min_self, ← hdb, List.length_append, List.length_append,
      List.length_append, hlabel, hzeros, List.length_singleton]
    omega

theorem length_encryptOaep? {key : PublicKey} {message seed ciphertext : Bytes}
    (hseed : seed.length = hashSize) (h : key.encryptOaep? message seed = some ciphertext) :
    ciphertext.length = key.size := by
  obtain ⟨-, _, -, -, rfl⟩ := exists_padded_of_encryptOaep? hseed h
  exact Bytes.length_ofNatBE _ _

theorem decryptOaep?_of_encryptOaep? {key : PrivateKey} (hkey : key.HasPrimes)
    {message seed ciphertext : Bytes} (hseed : seed.length = hashSize)
    (h : key.toPublic.encryptOaep? message seed = some ciphertext) :
    key.decryptOaep? ciphertext = some message := by
  have hpos := hkey.sound.modulus_pos
  obtain ⟨hroom, rest, hsize, hdecode, rfl⟩ := exists_padded_of_encryptOaep? hseed h
  have hsame : key.size = key.toPublic.size := rfl
  have hrest : rest.length = key.toPublic.size - 1 := by omega
  have hlt : Bytes.toNatBE (0 :: rest) < key.modulus := by
    have hvalue : Bytes.toNatBE (0 :: rest) = Bytes.toNatBE rest :=
      Bytes.toNatBE_zeros_append 1 rest
    rw [hvalue]
    refine Nat.lt_of_lt_of_le (Bytes.toNatBE_lt rest) ?_
    rw [hrest]
    exact pow_byteLength_le hpos
  have hpadded : Bytes.ofNatBE key.size (Bytes.toNatBE (0 :: rest)) = 0 :: rest := by
    have hlength : (0 :: rest).length = key.size := hsize
    rw [← hlength]
    exact Bytes.ofNatBE_toNatBE _
  have happly : key.toPublic.apply (Bytes.toNatBE (0 :: rest)) < key.modulus :=
    apply_lt hkey.sound _
  have hread : Bytes.toNatBE (Bytes.ofNatBE key.toPublic.size
      (key.toPublic.apply (Bytes.toNatBE (0 :: rest)))) =
        key.toPublic.apply (Bytes.toNatBE (0 :: rest)) :=
    Bytes.toNatBE_ofNatBE_of_lt (Nat.lt_trans happly (lt_pow_byteLength hpos))
  have hlarge : ¬key.size < 2 * hashSize + 2 := Nat.not_lt_of_le hroom
  refine Option.bind_eq_some_iff.mpr ⟨Bytes.toNatBE (0 :: rest), ?_, ?_⟩
  · rw [hread]
    exact applyChecked?_apply hkey hlt
  · rw [if_neg hlarge, hpadded]
    exact hdecode

end Firmware.Crypto.Rsa
