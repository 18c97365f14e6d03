import Firmware.Proofs.Crypto.RsaPadding
import Firmware.Proofs.Key.Load
import Firmware.Proofs.Key.Structure

/-!
# Public keys survive re-encoding

`encodings_of_parse` : a key that was read can be written, as armoured text and as the bytes that key
hashes cover, and is read back from either.  So the bytes determine the key, across algorithms.

There are four forms in which a key is read and two in which it is written, so reading does not undo
writing form by form.  What carries the argument is that every key that was read is acceptable to its
algorithm (`wellFormed_of_parse`), whatever form it came in, and that an acceptable key is short
enough to be written (`toPem_eq`, `toBytes_eq`) and is read back from what is written of it
(`parse_pem`, `barePublicKeyOf_encoding`).

A key in its own bytes may be of any algorithm or RSA, and the former is tried first.  An RSA key
starts with a number where the other structure has a sequence, so it is never taken for one
(`publicKeyOf_rsaPublicBytes`).
-/

namespace Firmware.Key

/-! ## Keys that are acceptable -/

/-- Whether a key is acceptable to its algorithm. -/
def PublicKey.WellFormed : PublicKey → Prop
  | .rsa key => key.isValid = true ∧
      Crypto.Rsa.bitLength key.modulus ≤ Crypto.Rsa.PublicKey.maxBits
  | .ec c q => c.params.OnCurve q
  | .ed25519 point => Crypto.Ed25519.isKey point = true

theorem wellFormed_of_rsaPublicOf? {der : Bytes} {key : Crypto.Rsa.PublicKey}
    (h : rsaPublicOf? der = some key) : (PublicKey.rsa key).WellFormed := by
  obtain ⟨e, -, h⟩ := Option.bind_eq_some_iff.mp h
  obtain ⟨fields, -, h⟩ := Option.bind_eq_some_iff.mp h
  obtain ⟨numbers, -, h⟩ := Option.bind_eq_some_iff.mp h
  split at h
  · dsimp only at h
    split at h
    · rename_i hkey
      obtain rfl := Option.some.inj h
      exact hkey
    · cases h
  · cases h

theorem wellFormed_of_toKey {i : PublicKeyInfo} {k : PublicKey} (h : i.toKey = .ok k) :
    k.WellFormed := by
  unfold PublicKeyInfo.toKey at h
  split at h
  · split at h
    · obtain ⟨key, hkey, hk⟩ := elimWith_eq_ok_iff.mp h
      obtain ⟨bytes, -, hkey⟩ := Option.bind_eq_some_iff.mp hkey
      obtain rfl := Except.ok.inj hk
      exact wellFormed_of_rsaPublicOf? hkey
    · cases h
  · split at h
    · split at h
      · cases h
      · split at h
        · cases h
        · obtain ⟨q, hq, hk⟩ := elimWith_eq_ok_iff.mp h
          obtain ⟨bytes, -, hq⟩ := Option.bind_eq_some_iff.mp hq
          obtain rfl := Except.ok.inj hk
          exact Crypto.Curve.onCurve_of_decode? hq
    · split at h
      · split at h
        · cases h
        · split at h
          · rename_i hkey
            obtain rfl := Except.ok.inj h
            exact hkey
          · cases h
      · cases h

theorem wellFormed_of_publicKeyOf {der : Bytes} {k : PublicKey} (h : publicKeyOf der = .ok k) :
    k.WellFormed := by
  obtain ⟨i, -, hk⟩ := elimWith_eq_ok_iff.mp h
  exact wellFormed_of_toKey hk

theorem wellFormed_of_blockPublicKeyOf {block : Pem.Block} {k : PublicKey}
    (h : blockPublicKeyOf block = .ok k) : k.WellFormed := by
  unfold blockPublicKeyOf at h
  split at h
  · exact wellFormed_of_publicKeyOf h
  · obtain ⟨key, hkey, hk⟩ := elimWith_eq_ok_iff.mp h
    obtain rfl := Except.ok.inj hk
    exact wellFormed_of_rsaPublicOf? hkey
  · cases h

theorem wellFormed_of_barePublicKeyOf {der : Bytes} {k : PublicKey}
    (h : barePublicKeyOf der = .ok k) : k.WellFormed := by
  unfold barePublicKeyOf at h
  split at h
  · rename_i key hkey
    obtain rfl := Except.ok.inj h
    exact wellFormed_of_publicKeyOf hkey
  · obtain ⟨key, hkey, hk⟩ := elimWith_eq_ok_iff.mp h
    obtain rfl := Except.ok.inj hk
    exact wellFormed_of_rsaPublicOf? hkey

theorem wellFormed_of_parse {data : Bytes} {k : PublicKey} (h : PublicKey.parse data = .ok k) :
    k.WellFormed := by
  unfold PublicKey.parse at h
  split at h
  · obtain ⟨blocks, -, h⟩ := bind_eq_ok_iff.mp h
    obtain ⟨keys, hkeys, h⟩ := bind_eq_ok_iff.mp h
    obtain rfl := single_eq_ok_iff.mp h
    obtain ⟨block, -, hblock⟩ := exists_of_mem_of_mapM hkeys List.mem_cons_self
    exact wellFormed_of_blockPublicKeyOf hblock
  · exact wellFormed_of_barePublicKeyOf h

/-! ## Sizes -/

theorem length_rsaPublicBytes_le {key : Crypto.Rsa.PublicKey}
    (h : (PublicKey.rsa key).WellFormed) : (rsaPublicBytes key).length ≤ 537 := by
  obtain ⟨hvalid, hbits⟩ := h
  simp only [Crypto.Rsa.PublicKey.isValid, Bool.and_eq_true, beq_iff_eq, decide_eq_true_eq] at hvalid
  obtain ⟨⟨⟨⟨hodd, -⟩, -⟩, hexponent⟩, -⟩ := hvalid
  have hbytes : Crypto.Rsa.byteLength key.modulus ≤ 512 := by
    rw [Crypto.Rsa.PublicKey.maxBits] at hbits
    unfold Crypto.Rsa.byteLength
    omega
  have hn := Der.length_toBytes_integer_le (Crypto.Rsa.lt_pow_byteLength (n := key.modulus)
    (by omega)) (by omega)
  have he := @Der.length_toBytes_integer_le key.exponent 5 (by omega) (by decide)
  refine Der.length_sequence_le (n := 531) ?_ (by decide)
  simp only [List.map_cons, List.map_nil, List.flatMap_cons, List.flatMap_nil, List.length_append,
    List.length_nil]
  omega

theorem length_publicKeyInfo_le {a : AlgorithmId} {bytes : Bytes}
    (ha : a.toElement.toBytes.length ≤ 32) (hbytes : bytes.length ≤ 537) :
    (PublicKeyInfo.mk a (.ofBytes bytes)).toBytes.length ≤ 600 := by
  have hbits : (Der.bitString (.ofBytes bytes)).content.length = bytes.length + 1 := rfl
  have hstring := @Der.length_toBytes_le (Der.bitString (.ofBytes bytes)) (by omega)
  refine Der.length_sequence_le (n := 594) ?_ (by decide)
  simp only [List.flatMap_cons, List.flatMap_nil, List.length_append, List.length_nil]
  omega

/-! ## Reading what was written -/

namespace PublicKey

variable {k : PublicKey}

theorem length_ofKey_le (h : k.WellFormed) : (PublicKeyInfo.ofKey k).toBytes.length ≤ 600 := by
  cases k with
  | rsa key => exact length_publicKeyInfo_le (by decide) (length_rsaPublicBytes_le h)
  | ec c q =>
      apply length_publicKeyInfo_le
      · cases c with
        | p224 => decide
        | p256 => decide
      · rw [Crypto.Curve.length_encode]
        cases c with
        | p224 => decide
        | p256 => decide
  | ed25519 point =>
      apply length_publicKeyInfo_le (by decide)
      have hlength : point.length = 32 := by
        have hkey : Crypto.Ed25519.isKey point = true := h
        rw [Crypto.Ed25519.isKey, Bool.and_eq_true, beq_iff_eq] at hkey
        exact hkey.1
      omega

theorem length_encoding_le (h : k.WellFormed) : k.encoding.length ≤ 600 := by
  cases k with
  | rsa key => exact Nat.le_trans (length_rsaPublicBytes_le h) (by decide)
  | ec c q => exact length_ofKey_le h
  | ed25519 point => exact length_ofKey_le h

/-- The armoured text of a key. -/
def pem (k : PublicKey) : String := Pem.encode ⟨"PUBLIC KEY", (PublicKeyInfo.ofKey k).toBytes⟩

theorem toBytes_eq (h : k.WellFormed) : k.toBytes = .ok k.encoding := by
  have hsize : k.encoding.length ≤ Der.maxSize := Nat.le_trans (length_encoding_le h) (by decide)
  cases k with
  | rsa key => exact writable_eq_ok_iff.mpr ⟨hsize, rfl⟩
  | ec c q => exact writable_eq_ok_iff.mpr ⟨hsize, rfl⟩
  | ed25519 point => rfl

theorem toPem_eq (h : k.WellFormed) : k.toPem = .ok k.pem := by
  cases k with
  | rsa key =>
      have hsize := Nat.le_trans (length_ofKey_le h) (show 600 ≤ Der.maxSize by decide)
      exact bind_eq_ok_iff.mpr ⟨_, writable_eq_ok_iff.mpr ⟨hsize, rfl⟩, rfl⟩
  | ec c q => exact bind_eq_ok_iff.mpr ⟨_, toBytes_eq h, rfl⟩
  | ed25519 point => exact bind_eq_ok_iff.mpr ⟨_, toBytes_eq h, rfl⟩

theorem toKey_ofKey (h : k.WellFormed) : (PublicKeyInfo.ofKey k).toKey = .ok k := by
  cases k with
  | rsa key =>
      have hkey := rsaPublicOf?_rsaPublicBytes h.1 h.2
        (Nat.le_trans (length_rsaPublicBytes_le h) (by decide))
      rw [PublicKeyInfo.ofKey, PublicKeyInfo.toKey_rsa, Der.Bits.toBytes?_ofBytes,
        Option.bind_eq_bind, Option.bind_some, hkey]
      rfl
  | ec c q =>
      have hkey := Crypto.Curve.decode?_encode (field_le c) h
      rw [PublicKeyInfo.ofKey, PublicKeyInfo.toKey_ec, Der.Bits.toBytes?_ofBytes,
        Option.bind_eq_bind, Option.bind_some, hkey]
      rfl
  | ed25519 point =>
      rw [PublicKeyInfo.ofKey, PublicKeyInfo.toKey_ed25519]
      exact if_pos h

theorem publicKeyOf_ofKey (h : k.WellFormed) :
    publicKeyOf (PublicKeyInfo.ofKey k).toBytes = .ok k := by
  have hsize : (PublicKeyInfo.ofKey k).toBytes.length ≤ Der.maxSize :=
    Nat.le_trans (length_ofKey_le h) (by decide)
  have hinfo : PublicKeyInfo.ofBytes? (PublicKeyInfo.ofKey k).toBytes =
      some (PublicKeyInfo.ofKey k) := by
    cases k with
    | rsa key => exact PublicKeyInfo.ofBytes?_toBytes AlgorithmId.readable_rsa hsize
    | ec c q => exact PublicKeyInfo.ofBytes?_toBytes (AlgorithmId.readable_ec c) hsize
    | ed25519 point => exact PublicKeyInfo.ofBytes?_toBytes AlgorithmId.readable_ed25519 hsize
  rw [publicKeyOf, hinfo]
  exact toKey_ofKey h

/-- An RSA key on its own is not taken for a key of any algorithm: it starts with a number. -/
theorem publicKeyOf_rsaPublicBytes {key : Crypto.Rsa.PublicKey}
    (hsize : (rsaPublicBytes key).length ≤ Der.maxSize) :
    publicKeyOf (rsaPublicBytes key) = .error .loadPublic := by
  have hfields := Der.sequence?_sequence_of_size (Der.tagged_map_integer _) hsize
  have hinfo : PublicKeyInfo.ofBytes? (rsaPublicBytes key) = none := by
    unfold PublicKeyInfo.ofBytes? rsaPublicBytes
    simp only [Der.parse?_sequence hsize, hfields, Option.bind_eq_bind, Option.bind_some]
    rfl
  rw [publicKeyOf, hinfo]
  rfl

theorem barePublicKeyOf_encoding (h : k.WellFormed) : barePublicKeyOf k.encoding = .ok k := by
  have hother : publicKeyOf k.encoding = .ok k → barePublicKeyOf k.encoding = .ok k := by
    intro hkey
    rw [barePublicKeyOf, hkey]
  cases k with
  | rsa key =>
      have hsize : (rsaPublicBytes key).length ≤ Der.maxSize :=
        Nat.le_trans (length_rsaPublicBytes_le h) (by decide)
      show barePublicKeyOf (rsaPublicBytes key) = _
      rw [barePublicKeyOf, publicKeyOf_rsaPublicBytes hsize]
      show (rsaPublicOf? (rsaPublicBytes key)).elim _ _ = _
      rw [rsaPublicOf?_rsaPublicBytes h.1 h.2 hsize]
      rfl
  | ec c q => exact hother (publicKeyOf_ofKey h)
  | ed25519 point => exact hother (publicKeyOf_ofKey h)

theorem parse_pem (h : k.WellFormed) : parse (Bytes.ofText k.pem) = .ok k := by
  have hlabel : Pem.Fits [80, 85, 66, 76, 73, 67, 32, 75, 69, 89] := ⟨by decide, by decide⟩
  have htext : k.pem = Pem.encode
    ⟨Bytes.ascii [80, 85, 66, 76, 73, 67, 32, 75, 69, 89], (PublicKeyInfo.ofKey k).toBytes⟩ := rfl
  have hblock : blockPublicKeyOf
      ⟨Bytes.ascii [80, 85, 66, 76, 73, 67, 32, 75, 69, 89], (PublicKeyInfo.ofKey k).toBytes⟩ =
        .ok k := publicKeyOf_ofKey h
  have hne : (PublicKeyInfo.ofKey k).toBytes ≠ [] := List.cons_ne_nil _ _
  rw [htext, parse, if_pos (Pem.isArmoured_encode hlabel hne)]
  refine bind_eq_ok_iff.mpr ⟨_, blocksOf_encode hlabel hne, ?_⟩
  exact bind_eq_ok_iff.mpr ⟨_, mapM_eq_ok_iff.mpr (.cons hblock .nil), rfl⟩

theorem parse_encoding (h : k.WellFormed) (hplain : ¬Pem.beginMark <:+: k.encoding) :
    parse k.encoding = .ok k := by
  rw [← Pem.isArmoured_iff] at hplain
  rw [parse, if_neg hplain]
  exact barePublicKeyOf_encoding h

/-! ## Keys that were read -/

/-- A key that was read can be written in both ways, is read back from either, and is the only key
with its bytes, which are those that its hash covers. -/
theorem encodings_of_parse {data : Bytes} (h : parse data = .ok k) :
    (∃ text, k.toPem = .ok text ∧ parse (Bytes.ofText text) = .ok k) ∧
      (∃ bytes, k.toBytes = .ok bytes ∧ k.keyHash = (Crypto.sha256 bytes).take keyHashSize ∧
        (¬Pem.beginMark <:+: bytes → parse bytes = .ok k)) ∧
      ∀ data' k', parse data' = .ok k' → k'.toBytes = k.toBytes → k' = k := by
  have hk := wellFormed_of_parse h
  refine ⟨⟨k.pem, toPem_eq hk, parse_pem hk⟩, ⟨k.encoding, toBytes_eq hk, rfl, parse_encoding hk⟩,
    fun data' k' h' hsame => ?_⟩
  have hk' := wellFormed_of_parse h'
  have hencoding : k'.encoding = k.encoding := by
    rw [toBytes_eq hk', toBytes_eq hk] at hsame
    exact Except.ok.inj hsame
  have hread := barePublicKeyOf_encoding hk'
  rw [hencoding, barePublicKeyOf_encoding hk] at hread
  exact (Except.ok.inj hread).symm

namespace Compressed

/-- The base point of a curve as a key. -/
def generator : PublicKey := .ec .p256 Crypto.Curve.p256.base

/-- A file with the key, in which the point is compressed. -/
def file : Bytes :=
  (PublicKeyInfo.mk (.ec .p256)
    (.ofBytes (Crypto.Curve.p256.encodeCompressed Crypto.Curve.p256.base))).toBytes

set_option maxRecDepth 100000 in
theorem parse_file : parse file = .ok generator := by decide +kernel

set_option maxRecDepth 100000 in
theorem isArmoured_generator : Pem.isArmoured generator.encoding = false := by decide +kernel

set_option maxRecDepth 100000 in
theorem toBytes_generator : generator.toBytes = .ok generator.encoding := by decide +kernel

set_option maxRecDepth 100000 in
theorem encoding_ne_file : generator.encoding ≠ file := by decide +kernel

end Compressed

/-- The key from a compressed point is written with the whole point, and read back. -/
theorem encodings_of_parse_compressed :
    parse Compressed.file = .ok Compressed.generator ∧
      (∃ text, Compressed.generator.toPem = .ok text ∧
        parse (Bytes.ofText text) = .ok Compressed.generator) ∧
      ∃ bytes, Compressed.generator.toBytes = .ok bytes ∧ bytes ≠ Compressed.file ∧
        parse bytes = .ok Compressed.generator := by
  obtain ⟨hpem, ⟨bytes, htoBytes, -, hbytes⟩, -⟩ := encodings_of_parse Compressed.parse_file
  obtain rfl : Compressed.generator.encoding = bytes :=
    Except.ok.inj (Compressed.toBytes_generator.symm.trans htoBytes)
  refine ⟨Compressed.parse_file, hpem, _, htoBytes, Compressed.encoding_ne_file,
    hbytes fun hinfix => ?_⟩
  have harmoured := Pem.isArmoured_iff.mpr hinfix
  rw [Compressed.isArmoured_generator] at harmoured
  cases harmoured

end PublicKey

end Firmware.Key
