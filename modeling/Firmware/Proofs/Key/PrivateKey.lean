import Firmware.Proofs.Key.Encrypted
import Firmware.Proofs.Key.Load
import Firmware.Proofs.Run
import Mathlib.Data.List.ReduceOption

/-!
# Saved private keys load again

`parse_of_yields_toPem` : a key that is acceptable to its algorithm and was saved is loaded as it was,
without a passphrase if it was saved without one, and else with the same passphrase.

Keys are read in many forms but written in one, so again a key is first seen to be acceptable,
whatever form it came in (`wellFormed_of_parseKey`) and whether it was read or generated
(`wellFormed_of_yields_drawScalar`).  For a curve this means that the point is the one that the
scalar gives, so that nothing is lost when only the scalar is looked at again.
-/

namespace Firmware.Key

/-! ## Keys that are acceptable -/

/-- Whether a key is acceptable to its algorithm. -/
def SigningKey.WellFormed : SigningKey → Prop
  | .rsa key => key.isValid = true
  | .ec c d q => SigningKey.ofScalar? c d = some (.ec c d q)
  | .ed25519 seed => seed.length = 32

variable {k : SigningKey} {der : Bytes} {source : Passphrase}

theorem wellFormed_of_ofScalar? {c : EcCurve} {d : Nat} (h : SigningKey.ofScalar? c d = some k) :
    k.WellFormed := by
  have hk := h
  unfold SigningKey.ofScalar? at h
  split at h
  · obtain ⟨q, -, rfl⟩ := Option.map_eq_some_iff.mp h
    exact hk
  · cases h

theorem wellFormed_of_rsaPrivateOf? {key : Crypto.Rsa.PrivateKey} (h : rsaPrivateOf? der = some key) :
    (SigningKey.rsa key).WellFormed := by
  obtain ⟨e, -, h⟩ := Option.bind_eq_some_iff.mp h
  obtain ⟨fields, -, h⟩ := Option.bind_eq_some_iff.mp h
  obtain ⟨numbers, -, h⟩ := Option.bind_eq_some_iff.mp h
  split at h
  · dsimp only at h
    split at h
    · rename_i hkey
      obtain rfl := Option.some.inj h
      exact hkey.2
    · cases h
  · cases h

theorem wellFormed_of_toKey? {c : EcCurve} {e : EcPrivate} (h : e.toKey? c = some k) :
    k.WellFormed := by
  unfold EcPrivate.toKey? at h
  split at h
  · split at h
    · rename_i c' d q hscalar
      have hk := wellFormed_of_ofScalar? hscalar
      split at h
      · obtain rfl := Option.some.inj h
        exact hk
      · split at h
        · obtain rfl := Option.some.inj h
          exact hk
        · cases h
    · cases h
  · cases h

theorem wellFormed_of_ecPrivateOf (h : ecPrivateOf der = .ok k) : k.WellFormed := by
  obtain ⟨e, -, h⟩ := Option.bind_eq_some_iff.mp (elim_eq_ok_iff.mp h)
  have hor {a b : Option SigningKey} (hab : (a <|> b) = some k) : a = some k ∨ b = some k := by
    cases a with
    | none => exact .inr hab
    | some a => exact .inl hab
  unfold EcPrivate.toAnyKey? at h
  split at h
  · exact (hor h).elim wellFormed_of_toKey? wellFormed_of_toKey?
  · exact (hor h).elim wellFormed_of_toKey? wellFormed_of_toKey?

theorem wellFormed_of_pkcs8Of (h : pkcs8Of der = .ok k) : k.WellFormed := by
  obtain ⟨i, -, h⟩ := elimWith_eq_ok_iff.mp h
  unfold PrivateKeyInfo.toKey at h
  split at h
  · split at h
    · obtain ⟨key, hkey, hk⟩ := elimWith_eq_ok_iff.mp h
      obtain rfl := Except.ok.inj hk
      exact wellFormed_of_rsaPrivateOf? hkey
    · cases h
  · split at h
    · split at h
      · cases h
      · split at h
        · cases h
        · obtain ⟨e, -, hkey⟩ := Option.bind_eq_some_iff.mp (elim_eq_ok_iff.mp h)
          exact wellFormed_of_toKey? hkey
    · split at h
      · split at h
        · cases h
        · split at h
          · rename_i hseed
            obtain rfl := Except.ok.inj h
            exact hseed
          · cases h
      · cases h

theorem wellFormed_of_encryptedOf (h : encryptedOf der source = .ok k) : k.WellFormed := by
  unfold encryptedOf at h
  split at h
  · cases h
  · obtain ⟨text, -, h⟩ := bind_eq_ok_iff.mp h
    split at h
    · cases h
    · exact wellFormed_of_pkcs8Of h

theorem wellFormed_of_blockKeyOf {block : Pem.Block} (h : blockKeyOf source block = .ok (some k)) :
    k.WellFormed := by
  unfold blockKeyOf at h
  split at h
  · cases h
  · obtain ⟨key, hkey, hk⟩ := elimWith_eq_ok_iff.mp h
    obtain rfl := Option.some.inj (Except.ok.inj hk)
    exact wellFormed_of_rsaPrivateOf? hkey
  · obtain ⟨key, hkey, hk⟩ := map_eq_ok_iff.mp h
    obtain rfl := Option.some.inj hk
    exact wellFormed_of_ecPrivateOf hkey
  · obtain ⟨key, hkey, hk⟩ := map_eq_ok_iff.mp h
    obtain rfl := Option.some.inj hk
    exact wellFormed_of_pkcs8Of hkey
  · obtain ⟨key, hkey, hk⟩ := map_eq_ok_iff.mp h
    obtain rfl := Option.some.inj hk
    exact wellFormed_of_encryptedOf hkey
  · cases h

theorem wellFormed_of_bareKeyOf (h : bareKeyOf der = .ok k) : k.WellFormed := by
  unfold bareKeyOf at h
  split at h
  · rename_i key hkey
    obtain rfl := Except.ok.inj h
    exact wellFormed_of_pkcs8Of hkey
  · split at h
    · rename_i key hkey
      obtain rfl := Except.ok.inj h
      exact wellFormed_of_rsaPrivateOf? hkey
    · exact wellFormed_of_ecPrivateOf (mapError_eq_ok_iff.mp h)

theorem wellFormed_of_parseKey {data : Bytes} (h : SigningKey.parse data source = .ok k) :
    k.WellFormed := by
  unfold SigningKey.parse at h
  split at h
  · obtain ⟨blocks, -, h⟩ := bind_eq_ok_iff.mp h
    obtain ⟨keys, hkeys, h⟩ := bind_eq_ok_iff.mp h
    have hmem : some k ∈ keys := by
      rw [← List.reduceOption_mem_iff, single_eq_ok_iff.mp h]
      exact List.mem_cons_self
    obtain ⟨block, -, hblock⟩ := exists_of_mem_of_mapM hkeys hmem
    exact wellFormed_of_blockKeyOf hblock
  · exact wellFormed_of_bareKeyOf h

/-! ## Reading what was written -/

/-- The structure for a key is read back, and it starts as such structures do. -/
theorem pkcs8Of_toPkcs8 (hk : k.WellFormed) (h : k.toPkcs8 = .ok der) :
    pkcs8Of der = .ok k ∧ ∃ e, Der.parse? der = some e ∧ e.tag = Der.sequenceTag := by
  obtain ⟨info, hinfo, hder⟩ := elimWith_eq_ok_iff.mp h
  obtain ⟨hsize, rfl⟩ := writable_eq_ok_iff.mp hder
  refine ⟨?_, _, Der.parse?_sequence hsize, rfl⟩
  have hkeySize := Nat.le_trans info.length_key_le hsize
  cases k with
  | rsa key =>
      obtain ⟨bytes, hbytes, hinfo⟩ := Option.bind_eq_some_iff.mp hinfo
      obtain rfl := Option.some.inj hinfo
      rw [pkcs8Of, PrivateKeyInfo.ofBytes?_toBytes_none AlgorithmId.readable_rsa hsize,
        Option.elim_some, PrivateKeyInfo.toKey_rsa, rsaPrivateOf?_of_bytes hk hbytes hkeySize]
      rfl
  | ec c d q =>
      obtain rfl := Option.some.inj hinfo
      rw [pkcs8Of, PrivateKeyInfo.ofBytes?_toBytes_none (AlgorithmId.readable_ec c) hsize,
        Option.elim_some, PrivateKeyInfo.toKey_ec, EcPrivate.ofBytes?_bytes hkeySize,
        Option.bind_eq_bind, Option.bind_some, EcPrivate.toKey?_eq hk]
      rfl
  | ed25519 seed =>
      obtain rfl := Option.some.inj hinfo
      rw [pkcs8Of, PrivateKeyInfo.ofBytes?_toBytes_some AlgorithmId.readable_ed25519 hsize]
      exact PrivateKeyInfo.toKey_ed25519 _ (Der.parse?_toBytes rfl hkeySize) hk

/-! ## Saving and loading -/

theorem blockKeyOf_plain (h : pkcs8Of der = .ok k) :
    blockKeyOf source ⟨"PRIVATE KEY", der⟩ = .ok (some k) := by
  show some <$> pkcs8Of der = _
  rw [h]
  rfl

theorem blockKeyOf_encrypted (h : encryptedOf der source = .ok k) :
    blockKeyOf source ⟨"ENCRYPTED PRIVATE KEY", der⟩ = .ok (some k) := by
  show some <$> encryptedOf der source = _
  rw [h]
  rfl

/-- Text with one block is read as the key in it. -/
theorem parse_encode {name : String} {label : Bytes} (hname : name = Bytes.ascii label)
    (hlabel : Pem.Fits label) (hne : der ≠ [])
    (h : blockKeyOf source ⟨name, der⟩ = .ok (some k)) :
    SigningKey.parse (Bytes.ofText (Pem.encode ⟨name, der⟩)) source = .ok k := by
  rw [hname] at h ⊢
  rw [SigningKey.parse, if_pos (Pem.isArmoured_encode hlabel hne)]
  refine bind_eq_ok_iff.mpr ⟨_, blocksOf_encode hlabel hne, ?_⟩
  exact bind_eq_ok_iff.mpr ⟨_, mapM_eq_ok_iff.mpr (.cons h .nil), rfl⟩

theorem encryptedOf_encryptBytes {passphrase : String} {salt iv : Bytes} (hiv : iv.length = 16)
    (hsource : source.acquire = .ok passphrase) (hkey : pkcs8Of der = .ok k)
    (hparse : ∃ e, Der.parse? der = some e ∧ e.tag = Der.sequenceTag)
    (hsize : (EncryptedKey.encryptBytes (Bytes.ofText passphrase) salt iv der).length ≤
      Der.maxSize) :
    encryptedOf (EncryptedKey.encryptBytes (Bytes.ofText passphrase) salt iv der) source =
      .ok k := by
  obtain ⟨e, hparse, htag⟩ := hparse
  rw [encryptedOf, EncryptedKey.ofBytes?_encryptBytes hiv hsize]
  refine bind_eq_ok_iff.mpr ⟨passphrase, hsource, ?_⟩
  rw [EncryptedKey.decrypt?_encrypted hiv hparse htag]
  exact hkey

/-- An acceptable key that was saved is loaded again. -/
theorem parse_of_yields_toPem (hk : k.WellFormed) {passphrase text : String} {s s' : RandomSource}
    (hsaved : Yields (k.toPem passphrase) s text s')
    (hsource : passphrase ≠ "" → source.acquire = .ok passphrase) :
    SigningKey.parse (Bytes.ofText text) source = .ok k := by
  have hplain : Pem.Fits [80, 82, 73, 86, 65, 84, 69, 32, 75, 69, 89] := ⟨by decide, by decide⟩
  have hencrypted : Pem.Fits
      [69, 78, 67, 82, 89, 80, 84, 69, 68, 32, 80, 82, 73, 86, 65, 84, 69, 32, 75, 69, 89] :=
    ⟨by decide, by decide⟩
  obtain ⟨der, s₁, hlift, hsaved⟩ := yields_bind.mp hsaved
  obtain ⟨hder, rfl⟩ := Random.yields_lift.mp hlift
  obtain ⟨hkey, hparse⟩ := pkcs8Of_toPkcs8 hk hder
  have hne : der ≠ [] := by
    rintro rfl
    obtain ⟨e, hnone, -⟩ := hparse
    cases hnone
  split at hsaved
  · obtain ⟨rfl, -⟩ := yields_pure.mp hsaved
    exact parse_encode rfl hplain hne (blockKeyOf_plain hkey)
  · rename_i hsecret
    have hacquire := hsource fun hempty => hsecret (String.isEmpty_iff.mpr hempty)
    obtain ⟨salt, _, -, hsaved⟩ := yields_bind.mp hsaved
    obtain ⟨iv, _, hiv, hsaved⟩ := yields_bind.mp hsaved
    obtain ⟨encrypted, _, hwritable, hsaved⟩ := yields_bind.mp hsaved
    obtain ⟨hsize, rfl⟩ := writable_eq_ok_iff.mp (Random.yields_lift.mp hwritable).1
    obtain ⟨rfl, -⟩ := yields_pure.mp hsaved
    exact parse_encode rfl hencrypted (List.cons_ne_nil _ _) (blockKeyOf_encrypted
      (encryptedOf_encryptBytes (Random.length_of_yields_draw hiv) hacquire hkey hparse hsize))

/-- A key whose structure leaves room for the scheme can be saved. -/
theorem exists_yields_toPem (hder : k.toPkcs8 = .ok der) (hsize : der.length + 145 ≤ Der.maxSize)
    (passphrase : String) (s : RandomSource) :
    ∃ text s', Yields (k.toPem passphrase) s text s' := by
  have hlift : Yields (Random.lift k.toPkcs8) s der s := Random.yields_lift.mpr ⟨hder, rfl⟩
  have hdraw (s : RandomSource) :
      Yields (Random.draw 16 : Random Error Bytes) s (s.draw 16).1 (s.draw 16).2 :=
    Random.yields_draw.mpr rfl
  by_cases hempty : passphrase.isEmpty = true
  · refine ⟨Pem.encode ⟨"PRIVATE KEY", der⟩, s, yields_bind.mpr ⟨der, s, hlift, ?_⟩⟩
    rw [if_pos hempty]
    exact yields_pure.mpr ⟨rfl, rfl⟩
  · obtain ⟨salt, s₁, hsalt⟩ : ∃ salt s₁, Yields (Random.draw 16 : Random Error Bytes) s salt s₁ :=
      ⟨_, _, hdraw s⟩
    obtain ⟨iv, s₂, hiv⟩ : ∃ iv s₂, Yields (Random.draw 16 : Random Error Bytes) s₁ iv s₂ :=
      ⟨_, _, hdraw s₁⟩
    have hroom : der.length < 256 ^ 4 - 145 :=
      Nat.lt_of_le_of_lt (Nat.le_sub_of_add_le hsize) (by decide)
    have hlength := EncryptedKey.length_encryptBytes_le (Bytes.ofText passphrase)
      (Random.length_of_yields_draw hsalt) (Random.length_of_yields_draw hiv) hroom
    have hwritable := (@writable_eq_ok_iff .save _ _).mpr ⟨Nat.le_trans hlength hsize, rfl⟩
    refine ⟨Pem.encode ⟨"ENCRYPTED PRIVATE KEY",
      EncryptedKey.encryptBytes (Bytes.ofText passphrase) salt iv der⟩, s₂,
      yields_bind.mpr ⟨der, s, hlift, ?_⟩⟩
    rw [if_neg hempty]
    refine yields_bind.mpr ⟨salt, s₁, hsalt, yields_bind.mpr ⟨iv, s₂, hiv, ?_⟩⟩
    exact yields_bind.mpr ⟨_, s₂, Random.yields_lift.mpr ⟨hwritable, rfl⟩, yields_pure.mpr ⟨rfl, rfl⟩⟩

/-! ## Generated keys -/

theorem wellFormed_of_yields_drawScalar {c : EcCurve} {draws : Nat} {s s' : RandomSource}
    (h : Yields (drawScalar c draws) s k s') : k.WellFormed := by
  induction draws generalizing s with
  | zero => exact absurd h not_yields_throw
  | succ draws ih =>
      obtain ⟨drawn, s₁, -, h⟩ := yields_bind.mp h
      split at h
      · rename_i key hkey
        obtain ⟨rfl, -⟩ := yields_pure.mp h
        exact wellFormed_of_ofScalar? hkey
      · exact ih h

theorem wellFormed_of_yields_generateEd25519 {s s' : RandomSource}
    (h : Yields generateEd25519 s k s') : k.WellFormed := by
  obtain ⟨seed, _, hseed, h⟩ := yields_bind.mp h
  obtain ⟨rfl, -⟩ := yields_pure.mp h
  exact Random.length_of_yields_draw hseed

end Firmware.Key
