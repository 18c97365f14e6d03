import Firmware.Proofs.Crypto.Primality
import Firmware.Proofs.Crypto.Sha256
import Firmware.Proofs.Key.PublicKey
import Firmware.Proofs.Secret

/-!
# RSA keys of other sizes

Only keys of 2048 bits are meant to carry a secret.  Wrapping refuses every other size.  Unwrapping
looks at the length of the value alone, and compares it with the size of the key that is given, so
any key opens what was encrypted for it.

`wrap_refuses_sizes_that_unwrap` : what each of the two does with a key of any size.
`unwrap_with_short` : a key of 1024 bits opens a value that it should have been refused for.
-/

namespace Firmware.Secret

variable {t : Tlv}

/-! ## Wrapping -/

theorem fails_wrap_of_size {data : Bytes} {key : Crypto.Rsa.PublicKey}
    (hparse : Key.parseRsaPublic data = .ok key) (hsize : key.size ≠ rsaSize) (secret : Key128)
    (source : RandomSource) :
    Fails (wrap data secret) source (.unsupportedRsaSize (key.size * 8)) source := by
  have hkey : WrapKey.parse data = .error (.unsupportedRsaSize (key.size * 8)) := by
    rw [WrapKey.parse, hparse]
    exact if_neg hsize
  refine fails_bind.mpr (.inl ?_)
  exact Prod.ext hkey rfl

/-! ## Unwrapping -/

/-- No key is refused for its size. -/
theorem unwrap_ne_unsupportedRsaSize (key : UnwrapKey) (t : Tlv) (bits : Nat) :
    key.unwrap t ≠ .error (.unsupportedRsaSize bits) := by
  intro h
  unfold UnwrapKey.unwrap at h
  rcases bind_eq_error_iff.mp h with hopen | ⟨bytes, -, hsize⟩
  · rw [open_eq, else_eq_error_iff, else_eq_error_iff, else_eq_error_iff, elim_eq_error_iff] at hopen
    rcases hopen with ⟨-, he⟩ | ⟨-, ⟨-, he⟩ | ⟨-, ⟨-, he⟩ | ⟨-, -, he⟩⟩⟩
    · cases he
    · cases he
    · cases he
    · cases key with
      | rsa key => cases he
      | kek key => cases he
  · obtain ⟨-, he⟩ := elim_eq_error_iff.mp hsize
    cases he

theorem unwrap_rsa_eq_ok_iff {key : Crypto.Rsa.PrivateKey} {secret : Key128}
    (htag : t.tag = Tlv.encRsaTag) :
    (UnwrapKey.rsa key).unwrap t = .ok secret ↔
      t.data.length = key.size ∧ key.decryptOaep? t.data = some secret.bytes := by
  rw [unwrap_eq_ok_iff, open_eq_ok_iff]
  exact and_iff_right htag

/-- A key with room for a secret unwraps every secret that was encrypted for it. -/
theorem unwrap_of_encryptOaep {key : Crypto.Rsa.PrivateKey} (hrestores : (UnwrapKey.rsa key).Restores)
    (hroom : 82 ≤ key.size) (secret : Key128) {seed : Bytes}
    (hseed : seed.length = Crypto.Rsa.hashSize) :
    ∃ data, key.toPublic.encryptOaep? secret.bytes seed = some data ∧
      (UnwrapKey.rsa key).unwrap { tag := Tlv.encRsaTag, data } = .ok secret := by
  have hpublic : 82 ≤ key.toPublic.size := hroom
  obtain ⟨data, hdata⟩ := exists_encryptOaep? hpublic secret seed
  refine ⟨data, hdata, (unwrap_rsa_eq_ok_iff rfl).mpr ⟨?_, ?_⟩⟩
  · exact Crypto.Rsa.length_encryptOaep? hseed hdata
  · exact hrestores _ _ _ hseed hdata

/-! ## Both -/

/-- Wrapping refuses every file with a public key of another size and names the bits of the key.
Unwrapping refuses no such key, so the two agree for keys of the one size only: a private key opens
every value of its own size that it can decrypt, among them all secrets that were encrypted for
it. -/
theorem wrap_refuses_sizes_that_unwrap (data : Bytes) (key : Crypto.Rsa.PrivateKey) (t : Tlv)
    (htag : t.tag = Tlv.encRsaTag) :
    (∀ publicKey secret source, Key.parseRsaPublic data = .ok publicKey →
      publicKey.size ≠ rsaSize →
        Fails (wrap data secret) source (.unsupportedRsaSize (publicKey.size * 8)) source) ∧
    ((key.size ≠ rsaSize →
        (UnwrapKey.rsa key).unwrap t = .error (.unsupportedRsaSize (key.size * 8))) ↔
      key.size = rsaSize) ∧
    (∀ secret, (UnwrapKey.rsa key).unwrap t = .ok secret ↔
      t.data.length = key.size ∧ key.decryptOaep? t.data = some secret.bytes) ∧
    ((UnwrapKey.rsa key).Restores → 82 ≤ key.size → ∀ secret seed,
      seed.length = Crypto.Rsa.hashSize →
        ∃ data, key.toPublic.encryptOaep? secret.bytes seed = some data ∧
          (UnwrapKey.rsa key).unwrap { tag := Tlv.encRsaTag, data } = .ok secret) := by
  refine ⟨fun publicKey secret source hparse hsize => ?_, ⟨fun hrefuses => ?_, ?_⟩,
    fun secret => ?_, fun hrestores hroom secret seed hseed => ?_⟩
  · exact fails_wrap_of_size hparse hsize secret source
  · exact not_not.mp fun hsize => unwrap_ne_unsupportedRsaSize _ t _ (hrefuses hsize)
  · exact fun hsize hother => absurd hsize hother
  · exact unwrap_rsa_eq_ok_iff htag
  · exact unwrap_of_encryptOaep hrestores hroom secret hseed

/-! ### A key of 1024 bits -/

namespace Short

/-- A key of 1024 bits with the exponent three. -/
def key : Crypto.Rsa.PrivateKey where
  modulus := (2713 ^ 1 * 2 ^ 500 + 1) * (127 ^ 1 * 2 ^ 504 + 1)
  exponent := 3
  secret := (2 * (2713 ^ 1 * 2 ^ 500) * (127 ^ 1 * 2 ^ 504) + 1) / 3
  prime1 := 2713 ^ 1 * 2 ^ 500 + 1
  prime2 := 127 ^ 1 * 2 ^ 504 + 1

/-- The public half of the key in a file. -/
def keyFile : Bytes := (Key.PublicKeyInfo.ofKey (.rsa key.toPublic)).toBytes

def secret : Key128 where
  bytes := Bytes.ofNatBE 16 0x00112233445566778899aabbccddeeff
  length_eq := rfl

/-- The secret as it was encrypted with the public half. -/
def value : Tlv where
  tag := Tlv.encRsaTag
  data :=
    Bytes.ofNatBE 32 0x33a2d77ec88ae3137429cbbd63de62fdeae6d89337f345c00a9e0833d10a5080 ++
    Bytes.ofNatBE 32 0xc347a1f49f4b0aacf693cbdfe2e2f20a31c0ff679d03b76d702dcdc316077aa0 ++
    Bytes.ofNatBE 32 0x633715f6c2230748d651fb7a6050695e5fb561e8e0c009d26ac69f44ff33058c ++
    Bytes.ofNatBE 32 0xd11025fae59d031403b8905568e941aa48c04b365303ccda1a1d2616246ad175

set_option maxRecDepth 100000 in
theorem spec_key :
    key.isValid = true ∧ key.prime1 ≠ key.prime2 ∧ key.size = 128 ∧
      Key.parseRsaPublic keyFile = .ok key.toPublic ∧
      Crypto.HasFullOrder key.prime1 3 2713 ∧ Crypto.HasFullOrder key.prime2 3 127 := by
  decide +kernel

theorem size_key : key.size = 128 := spec_key.2.2.1

theorem parse_keyFile : Key.parseRsaPublic keyFile = .ok key.toPublic := spec_key.2.2.2.1

set_option maxRecDepth 100000 in
theorem hasPrimes_key : key.HasPrimes := by
  obtain ⟨hvalid, hne, -, -, horder1, horder2⟩ := spec_key
  have hfactor1 : Nat.Prime 2713 := by norm_num
  have hfactor2 : Nat.Prime 127 := by norm_num
  exact ⟨hvalid, @Crypto.prime_of_pow _ 3 2713 1 500 hfactor1 rfl horder1,
    @Crypto.prime_of_pow _ 3 127 1 504 hfactor2 rfl horder2, hne⟩

theorem restores : (UnwrapKey.rsa key).Restores := restores_rsa hasPrimes_key

theorem length_value : value.data.length = key.size := by
  rw [size_key]
  simp only [value, List.length_append, Bytes.length_ofNatBE]

set_option maxRecDepth 100000 in
theorem decrypt_value : key.decryptOaep? value.data = some secret.bytes := by
  unfold Crypto.Rsa.PrivateKey.decryptOaep? Crypto.Rsa.oaepDecode? Crypto.Rsa.mask
    Crypto.Rsa.labelHash
  simp only [Crypto.Sha256.sha256_eq_digest]
  decide +kernel

end Short

/-- The file with the public half does not wrap the secret, but the key unwraps it from a value that
was encrypted with the seed of forty-twos. -/
theorem wrap_refuses_sizes_that_unwrap_short :
    Short.value.tag = Tlv.encRsaTag ∧ Key.parseRsaPublic Short.keyFile = .ok Short.key.toPublic ∧
    Fails (wrap Short.keyFile Short.secret) (.cycle [42]) (.unsupportedRsaSize 1024)
      (.cycle [42]) ∧
    (UnwrapKey.rsa Short.key).unwrap Short.value = .ok Short.secret ∧
    ∃ data, Short.key.toPublic.encryptOaep? Short.secret.bytes (List.replicate 32 42) = some data ∧
      (UnwrapKey.rsa Short.key).unwrap { tag := Tlv.encRsaTag, data } = .ok Short.secret := by
  obtain ⟨hwrap, -, hunwrap, hencrypted⟩ :=
    wrap_refuses_sizes_that_unwrap Short.keyFile Short.key Short.value rfl
  have hpublic : Short.key.toPublic.size = 128 := Short.size_key
  have hother : Short.key.toPublic.size ≠ rsaSize := by
    rw [hpublic]
    decide
  have hfails := hwrap _ Short.secret (.cycle [42]) Short.parse_keyFile hother
  rw [hpublic] at hfails
  have hroom : 82 ≤ Short.key.size := by
    rw [Short.size_key]
    decide
  exact ⟨rfl, Short.parse_keyFile, hfails,
    (hunwrap Short.secret).mpr ⟨Short.length_value, Short.decrypt_value⟩,
    hencrypted Short.restores hroom Short.secret (List.replicate 32 42) rfl⟩

/-- A key of 128 bytes unwraps a value instead of being refused for its size. -/
theorem unwrap_with_short :
    Short.key.size = 128 ∧ Short.value.tag = Tlv.encRsaTag ∧
    (UnwrapKey.rsa Short.key).unwrap Short.value = .ok Short.secret ∧
    (UnwrapKey.rsa Short.key).unwrap Short.value ≠ .error (.unsupportedRsaSize 1024) := by
  have hunwrap : (UnwrapKey.rsa Short.key).unwrap Short.value = .ok Short.secret :=
    (unwrap_rsa_eq_ok_iff rfl).mpr ⟨Short.length_value, Short.decrypt_value⟩
  refine ⟨Short.size_key, rfl, hunwrap, ?_⟩
  rw [hunwrap]
  nofun

end Firmware.Secret
