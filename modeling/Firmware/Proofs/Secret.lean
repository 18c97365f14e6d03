import Firmware.Proofs.Crypto.AesModes
import Firmware.Proofs.Crypto.KeyWrap
import Firmware.Proofs.Crypto.RsaPadding
import Firmware.Proofs.Run
import Firmware.Secret

/-!
# Wrapped secrets

`open_eq` : keys of both kinds look at a value in the same way, so what is refused is said once for
both of them (`unwrap_of_no_kind`, `unwrap_of_other_kind`, `unwrap_of_other_size`).

`unwrap_of_wrap` : the value that a key wraps a secret in is one that the matching key unwraps to
that secret.  For a key-encryption key this is a property of AES key wrap.  For an RSA key it rests
on `Restores`: the key takes back what its public half encrypts.  Nothing that reads a key tests its
factors for being prime, so this is no property of every key; `restores_rsa` has it for the keys with
prime factors.
-/

namespace Firmware

theorem Key128.ofBytes?_bytes (key : Key128) : Key128.ofBytes? key.bytes = some key :=
  dif_pos key.length_eq

namespace Secret

variable {s s' : RandomSource} {t : Tlv}

theorem crypt_crypt (secret : Key128) (body : Bytes) :
    crypt secret (crypt secret body) = body :=
  @Crypto.Aes.ctr_ctr _ 4 (by decide) secret.length_eq body

theorem length_crypt (secret : Key128) (body : Bytes) :
    (crypt secret body).length = body.length :=
  @Crypto.Aes.length_ctr _ 4 (by decide) secret.length_eq body

/-! ## Matching keys -/

/-- The key that wraps what a key unwraps. -/
def UnwrapKey.wrapKey : UnwrapKey → WrapKey
  | rsa key => .rsa key.toPublic
  | kek key => .kek key

/-- An RSA key decrypts whatever its public half encrypts with a seed of the right size. -/
def UnwrapKey.Restores : UnwrapKey → Prop
  | rsa key => ∀ message seed ciphertext, seed.length = Crypto.Rsa.hashSize →
      key.toPublic.encryptOaep? message seed = some ciphertext →
        key.decryptOaep? ciphertext = some message
  | kek _ => True

/-- A valid RSA key whose factors are distinct primes restores what it wraps. -/
theorem restores_rsa {key : Crypto.Rsa.PrivateKey} (hkey : key.HasPrimes) :
    (UnwrapKey.rsa key).Restores :=
  fun _ _ _ hseed h => Crypto.Rsa.decryptOaep?_of_encryptOaep? hkey hseed h

/-- The tag of the values that hold a secret wrapped with a key. -/
def WrapKey.tag : WrapKey → UInt8
  | rsa _ => Tlv.encRsaTag
  | kek _ => Tlv.encKekTag

/-- The size of a secret wrapped with a key. -/
def WrapKey.wrappedSize : WrapKey → Nat
  | rsa key => key.size
  | kek _ => kekWrappedSize

theorem isSecret_tag (key : WrapKey) : Tlv.isSecret key.tag = true := by
  cases key with
  | kek key => rfl
  | rsa key => rfl

/-! ## Opening a value -/

/-- The bytes that a key decrypts, whatever they are said to be. -/
def UnwrapKey.decrypt? : UnwrapKey → Bytes → Option Bytes
  | rsa key => key.decryptOaep?
  | kek key => Crypto.KeyWrap.unwrap? key.bytes

/-- The error for bytes that a key cannot decrypt. -/
def UnwrapKey.failure : UnwrapKey → Error
  | rsa _ => .rsaUnwrap
  | kek _ => .kekUnwrap

/-- Both kinds of key look at a value in the same way: at its tag first, at its length next, and into
its bytes last. -/
theorem open_eq (key : UnwrapKey) (t : Tlv) :
    key.open t =
      if Tlv.isSecret t.tag = false then .error (.notSecret t.tag)
      else if t.tag ≠ key.wrapKey.tag then .error (.keyMismatch t.tag)
      else if t.data.length ≠ key.wrapKey.wrappedSize then
        .error (.wrappedSize t.data.length key.wrapKey.wrappedSize)
      else (key.decrypt? t.data).elim (.error key.failure) .ok := by
  have hother : Tlv.encKekTag ≠ Tlv.encRsaTag := by decide
  unfold UnwrapKey.open
  by_cases hrsa : t.tag = Tlv.encRsaTag
  · have hsecret : ¬Tlv.isSecret t.tag = false := by
      rw [hrsa]
      decide
    rw [if_pos hrsa, if_neg hsecret]
    cases key with
    | rsa key =>
        have htag : ¬t.tag ≠ (UnwrapKey.rsa key).wrapKey.tag := not_not.mpr hrsa
        rw [if_neg htag]
        rfl
    | kek key =>
        have htag : t.tag ≠ (UnwrapKey.kek key).wrapKey.tag := by
          rw [hrsa]
          exact hother.symm
        rw [if_pos htag]
  · rw [if_neg hrsa]
    by_cases hkek : t.tag = Tlv.encKekTag
    · have hsecret : ¬Tlv.isSecret t.tag = false := by
        rw [hkek]
        decide
      rw [if_pos hkek, if_neg hsecret]
      cases key with
      | rsa key =>
          have htag : t.tag ≠ (UnwrapKey.rsa key).wrapKey.tag := hrsa
          rw [if_pos htag]
      | kek key =>
          have htag : ¬t.tag ≠ (UnwrapKey.kek key).wrapKey.tag := not_not.mpr hkek
          rw [if_neg htag]
          rfl
    · have hsecret : Tlv.isSecret t.tag = false := by
        simp [Tlv.isSecret, hrsa, hkek]
      rw [if_neg hkek, if_pos hsecret]

/-- A key opens the values of its own kind and size that it can decrypt. -/
theorem open_eq_ok_iff {key : UnwrapKey} {bytes : Bytes} :
    key.open t = .ok bytes ↔ t.tag = key.wrapKey.tag ∧
      t.data.length = key.wrapKey.wrappedSize ∧ key.decrypt? t.data = some bytes := by
  rw [open_eq, else_eq_ok_iff, else_eq_ok_iff, else_eq_ok_iff, not_not, not_not, elim_eq_ok_iff]
  refine and_iff_right_of_imp ?_
  rintro ⟨htag, -⟩
  rw [htag, isSecret_tag]
  exact Bool.true_eq_false_eq_False

theorem unwrap_of_open_error {key : UnwrapKey} {e : Error} (h : key.open t = .error e) :
    key.unwrap t = .error e := by
  unfold UnwrapKey.unwrap
  exact bind_eq_error_iff.mpr (.inl h)

/-- A value that holds no secret is refused by every key. -/
theorem unwrap_of_no_kind {key : UnwrapKey} (h : Tlv.isSecret t.tag = false) :
    key.unwrap t = .error (.notSecret t.tag) := by
  apply unwrap_of_open_error
  rw [open_eq, if_pos h]

/-- A value of the other kind is refused, whatever is in it. -/
theorem unwrap_of_other_kind {key : UnwrapKey} (hsecret : Tlv.isSecret t.tag = true)
    (htag : t.tag ≠ key.wrapKey.tag) : key.unwrap t = .error (.keyMismatch t.tag) := by
  apply unwrap_of_open_error
  rw [open_eq, hsecret, if_neg Bool.true_eq_false_eq_False, if_pos htag]

/-- A value of the key's own kind is refused if it has another size. -/
theorem unwrap_of_other_size {key : UnwrapKey} (htag : t.tag = key.wrapKey.tag)
    (hlength : t.data.length ≠ key.wrapKey.wrappedSize) :
    key.unwrap t = .error (.wrappedSize t.data.length key.wrapKey.wrappedSize) := by
  apply unwrap_of_open_error
  rw [open_eq, htag, isSecret_tag, if_neg Bool.true_eq_false_eq_False, if_neg (not_not.mpr rfl),
    if_pos hlength]

/-- Bytes that are decrypted but have not the size of a secret are none. -/
theorem unwrap_of_secretSize {key : UnwrapKey} {bytes : Bytes} (h : key.open t = .ok bytes)
    (hlength : bytes.length ≠ 16) : key.unwrap t = .error (.secretSize bytes.length) := by
  have hsize : Key128.ofBytes? bytes = none := dif_neg hlength
  unfold UnwrapKey.unwrap
  exact bind_eq_error_iff.mpr (.inr ⟨bytes, h, elim_eq_error_iff.mpr ⟨hsize, rfl⟩⟩)

/-- A key unwraps a value to the secret that the bytes in it are. -/
theorem unwrap_eq_ok_iff {key : UnwrapKey} {secret : Key128} :
    key.unwrap t = .ok secret ↔ key.open t = .ok secret.bytes := by
  unfold UnwrapKey.unwrap
  rw [bind_eq_ok_iff]
  constructor
  · rintro ⟨bytes, hopen, hsize⟩
    rw [elim_eq_ok_iff, Key128.ofBytes?, Option.dite_none_right_eq_some] at hsize
    obtain ⟨_, hsecret⟩ := hsize
    obtain rfl := Option.some.inj hsecret
    exact hopen
  · intro hopen
    exact ⟨secret.bytes, hopen, elim_eq_ok_iff.mpr (Key128.ofBytes?_bytes secret)⟩

/-! ## Wrapping and unwrapping -/

/-- The value that holds a wrapped secret is known up to the seed for an RSA key. -/
theorem yields_wrap {key : WrapKey} {secret : Key128} (h : Yields (key.wrap secret) s t s') :
    t.pad = 0 ∧
      match key with
      | .rsa key => t.tag = Tlv.encRsaTag ∧
          ∃ seed, seed.length = Crypto.Rsa.hashSize ∧
            key.encryptOaep? secret.bytes seed = some t.data
      | .kek key => t.tag = Tlv.encKekTag ∧
          t.data = Crypto.KeyWrap.wrap key.bytes secret.bytes := by
  cases key with
  | kek key =>
      obtain ⟨rfl, -⟩ := yields_pure.mp h
      exact ⟨rfl, rfl, rfl⟩
  | rsa key =>
      obtain ⟨seed, _, hdraw, h⟩ := yields_bind.mp h
      have hseed := Random.length_of_yields_draw hdraw
      cases hdata : key.encryptOaep? secret.bytes seed with
      | none =>
          rw [hdata] at h
          exact absurd h not_yields_throw
      | some data =>
          rw [hdata] at h
          obtain ⟨rfl, -⟩ := yields_pure.mp h
          exact ⟨rfl, rfl, seed, hseed, hdata⟩

/-- Whatever the secret and the seed are, the key tells all of the value but its bytes. -/
theorem shape_of_wrap {key : WrapKey} {secret : Key128} (h : Yields (key.wrap secret) s t s') :
    t.tag = key.tag ∧ t.pad = 0 ∧ t.data.length = key.wrappedSize := by
  obtain ⟨hpad, hwrap⟩ := yields_wrap h
  cases key with
  | kek key =>
      obtain ⟨htag, hdata⟩ := hwrap
      have hlength :=
        (@Crypto.KeyWrap.wrap_spec _ _ 2 key.length_eq secret.length_eq).1
      rw [← hdata, secret.length_eq] at hlength
      exact ⟨htag, hpad, hlength⟩
  | rsa key =>
      obtain ⟨htag, seed, hseed, hdata⟩ := hwrap
      exact ⟨htag, hpad, Crypto.Rsa.length_encryptOaep? hseed hdata⟩

theorem isSecret_of_wrap {key : WrapKey} {secret : Key128}
    (h : Yields (key.wrap secret) s t s') : Tlv.isSecret t.tag = true := by
  rw [(shape_of_wrap h).1]
  exact isSecret_tag key

theorem unwrap_of_wrap {key : UnwrapKey} (hrestores : key.Restores) {secret : Key128}
    (h : Yields (key.wrapKey.wrap secret) s t s') : key.unwrap t = .ok secret := by
  obtain ⟨htag, -, hlength⟩ := shape_of_wrap h
  have hwrap := (yields_wrap h).2
  have hdecrypt : key.decrypt? t.data = some secret.bytes := by
    cases key with
    | kek key =>
        have hunwrap := (@Crypto.KeyWrap.wrap_spec _ _ 2 key.length_eq secret.length_eq).2
        rwa [← hwrap.2] at hunwrap
    | rsa key =>
        obtain ⟨-, seed, hseed, hdata⟩ := hwrap
        exact hrestores _ _ _ hseed hdata
  exact unwrap_eq_ok_iff.mpr (open_eq_ok_iff.mpr ⟨htag, hlength, hdecrypt⟩)

/-- A key that has room for the padding and a secret encrypts every secret. -/
theorem exists_encryptOaep? {key : Crypto.Rsa.PublicKey} (hroom : 82 ≤ key.size) (secret : Key128)
    (seed : Bytes) : ∃ data, key.encryptOaep? secret.bytes seed = some data := by
  have hlength := secret.length_eq
  have hhash : Crypto.Rsa.hashSize = 32 := rfl
  have hfits : ¬key.size < secret.bytes.length + 2 * Crypto.Rsa.hashSize + 2 := by omega
  unfold Crypto.Rsa.PublicKey.encryptOaep?
  rw [if_neg hfits]
  exact ⟨_, rfl⟩

theorem yields_wrap_of_parse {data : Bytes} {key : WrapKey} {secret : Key128}
    (hparse : WrapKey.parse data = .ok key) (h : Yields (key.wrap secret) s t s') :
    Yields (wrap data secret) s t s' :=
  yields_bind.mpr ⟨key, s, Random.yields_lift.mpr ⟨hparse, rfl⟩, h⟩

/-- A key-encryption key wraps every secret, without drawing. -/
theorem exists_wrap_kek (kek secret : Key128) (s : RandomSource) :
    ∃ t, Yields ((WrapKey.kek kek).wrap secret) s t s :=
  ⟨_, yields_pure.mpr ⟨rfl, rfl⟩⟩

/-- So does an RSA key that has room for a secret, but it draws a seed. -/
theorem exists_wrap_rsa {key : Crypto.Rsa.PublicKey} (hroom : 82 ≤ key.size) (secret : Key128)
    (s : RandomSource) :
    ∃ t, Yields ((WrapKey.rsa key).wrap secret) s t (s.draw Crypto.Rsa.hashSize).2 := by
  cases hdraw : s.draw Crypto.Rsa.hashSize with
  | mk seed s' =>
      obtain ⟨data, hdata⟩ := exists_encryptOaep? hroom secret seed
      refine ⟨{ tag := Tlv.encRsaTag, data }, yields_bind.mpr ⟨seed, s', ?_, ?_⟩⟩
      · exact Random.yields_draw.mpr hdraw
      · rw [hdata]
        exact yields_pure.mpr ⟨rfl, rfl⟩

/-- For a key-encryption key no bytes are drawn, so the value is a matter of the secret alone. -/
theorem unwrap_kek (kek secret : Key128) :
    (UnwrapKey.kek kek).unwrap
      { tag := Tlv.encKekTag, data := Crypto.KeyWrap.wrap kek.bytes secret.bytes } =
      .ok secret := by
  have hrestores : (UnwrapKey.kek kek).Restores := trivial
  have hwrap : Yields ((UnwrapKey.kek kek).wrapKey.wrap secret) (.cycle [0])
      { tag := Tlv.encKekTag, data := Crypto.KeyWrap.wrap kek.bytes secret.bytes } (.cycle [0]) :=
    yields_pure.mpr ⟨rfl, rfl⟩
  exact unwrap_of_wrap hrestores hwrap

end Secret

end Firmware
