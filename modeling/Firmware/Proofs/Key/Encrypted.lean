import Firmware.Key.Encrypted
import Firmware.Proofs.Crypto.AesModes
import Firmware.Proofs.Crypto.Scrypt
import Firmware.Proofs.Key.Structure

/-!
# Encrypted keys are read back

`ofBytes?_encryptBytes` : the structure that is written around an encrypted key names its scheme, and
`decrypt?_encrypted` : under the same passphrase this scheme gives the key back.  The writer and the
reader derive the same key from the passphrase, since salt and costs are written along.
-/

namespace Firmware.Key

open Der (Element)

namespace AlgorithmId

theorem length_params_le {a : AlgorithmId} {params : Element} (h : a.params = some params) :
    params.toBytes.length ≤ a.toElement.toBytes.length := by
  apply Der.length_toBytes_le_of_mem
  rw [h]
  exact List.mem_cons_of_mem _ List.mem_cons_self

end AlgorithmId

namespace EncryptedKey

variable {passphrase salt iv der : Bytes}

/-! ## What is written -/

/-- The costs and the salt of the derivation. -/
def scryptFields (salt : Bytes) : List Element :=
  Der.octetString salt :: [scryptCost, scryptBlockSize, scryptLanes].map Der.integer

/-- The derivation as an algorithm. -/
def derivationId (salt : Bytes) : AlgorithmId :=
  ⟨Derivation.scryptOid, some (Der.sequence (scryptFields salt))⟩

/-- The cipher as an algorithm. -/
def cipherId (iv : Bytes) : AlgorithmId := ⟨Cipher.aes256.oid, some (Der.octetString iv)⟩

/-- The scheme as an algorithm. -/
def schemeId (salt iv : Bytes) : AlgorithmId :=
  ⟨Scheme.modernOid,
    some (Der.sequence [(derivationId salt).toElement, (cipherId iv).toElement])⟩

/-- The scheme of written keys. -/
def writtenScheme (salt iv : Bytes) : Scheme :=
  .modern (.scrypt salt scryptCost scryptBlockSize scryptLanes none) .aes256 iv

/-- The key that the passphrase gives. -/
def derivedKey (passphrase salt : Bytes) : Bytes :=
  Crypto.scrypt passphrase salt scryptCost scryptBlockSize scryptLanes Cipher.aes256.keySize

/-- The encrypted data. -/
def encryptedData (passphrase salt iv der : Bytes) : Bytes :=
  Crypto.Aes.cbcEncrypt (derivedKey passphrase salt) iv der

theorem encryptBytes_eq (passphrase salt iv der : Bytes) :
    encryptBytes passphrase salt iv der =
      (Der.sequence [(schemeId salt iv).toElement,
        Der.octetString (encryptedData passphrase salt iv der)]).toBytes := rfl

theorem readable_derivationId (salt : Bytes) : (derivationId salt).Readable := by
  refine ⟨?_, rfl⟩
  show Oid.ofBytes? Derivation.scryptOid.body = some Derivation.scryptOid
  decide

theorem readable_cipherId (iv : Bytes) : (cipherId iv).Readable := by
  refine ⟨?_, rfl⟩
  show Oid.ofBytes? Cipher.aes256.oid.body = some Cipher.aes256.oid
  decide

theorem readable_schemeId (salt iv : Bytes) : (schemeId salt iv).Readable := by
  refine ⟨?_, rfl⟩
  show Oid.ofBytes? Scheme.modernOid.body = some Scheme.modernOid
  decide

/-! ## Reading the scheme -/

theorem derivation_eq (hsize : (derivationId salt).toElement.toBytes.length ≤ Der.maxSize) :
    Derivation.ofAlgorithm? (derivationId salt) =
      some (.scrypt salt scryptCost scryptBlockSize scryptLanes none) := by
  have hfields : (Der.sequence (scryptFields salt)).sequence? = some (scryptFields salt) :=
    Der.sequence?_sequence_of_size rfl (Nat.le_trans (AlgorithmId.length_params_le rfl) hsize)
  have hother : Derivation.scryptOid ≠ Derivation.pbkdf2Oid := by decide
  have hcost : (Der.integer scryptCost).naturalBelow? UInt64.size = some scryptCost :=
    Der.naturalBelow?_integer (by decide)
  have hblock : (Der.integer scryptBlockSize).naturalBelow? UInt16.size = some scryptBlockSize :=
    Der.naturalBelow?_integer (by decide)
  have hlanes : (Der.integer scryptLanes).naturalBelow? UInt16.size = some scryptLanes :=
    Der.naturalBelow?_integer (by decide)
  unfold Derivation.ofAlgorithm?
  simp only [derivationId, Option.bind_eq_bind, Option.bind_some, if_neg hother, if_true, hfields]
  simp only [scryptFields, List.map_cons, List.map_nil, Derivation.scryptOf?, hcost, hblock, hlanes,
    Der.octets?_octetString, Derivation.takeKeySize, Option.bind_eq_bind, Option.bind_some]
  rfl

theorem scheme_eq (hiv : iv.length = 16)
    (hsize : (schemeId salt iv).toElement.toBytes.length ≤ Der.maxSize) :
    Scheme.ofAlgorithm? (schemeId salt iv) = some (writtenScheme salt iv) := by
  have hparams : (Der.sequence [(derivationId salt).toElement, (cipherId iv).toElement]).toBytes.length
      ≤ Der.maxSize := Nat.le_trans (AlgorithmId.length_params_le rfl) hsize
  have hfields : (Der.sequence [(derivationId salt).toElement, (cipherId iv).toElement]).sequence? =
      some [(derivationId salt).toElement, (cipherId iv).toElement] :=
    Der.sequence?_sequence_of_size rfl hparams
  have hderivationSize : (derivationId salt).toElement.toBytes.length ≤ Der.maxSize :=
    Nat.le_trans (Der.length_toBytes_le_of_mem List.mem_cons_self) hparams
  have hcipherSize : (cipherId iv).toElement.toBytes.length ≤ Der.maxSize :=
    Nat.le_trans (Der.length_toBytes_le_of_mem (List.mem_cons_of_mem _ List.mem_cons_self)) hparams
  have hcipher : Cipher.ofOid? (cipherId iv).oid = some .aes256 := by
    show Cipher.ofOid? Cipher.aes256.oid = some .aes256
    decide
  have hmodern : Scheme.modernOf? [(derivationId salt).toElement, (cipherId iv).toElement] =
      some (writtenScheme salt iv) := by
    unfold Scheme.modernOf?
    simp only [AlgorithmId.ofElement?_toElement (readable_derivationId salt) hderivationSize,
      AlgorithmId.ofElement?_toElement (readable_cipherId iv) hcipherSize,
      derivation_eq hderivationSize, hcipher, Option.bind_eq_bind, Option.bind_some]
    exact if_pos hiv
  unfold Scheme.ofAlgorithm?
  simp only [schemeId, Option.bind_eq_bind, Option.bind_some, hfields, if_true, hmodern]

theorem ofBytes?_encryptBytes (hiv : iv.length = 16)
    (hsize : (encryptBytes passphrase salt iv der).length ≤ Der.maxSize) :
    ofBytes? (encryptBytes passphrase salt iv der) =
      some ⟨writtenScheme salt iv, encryptedData passphrase salt iv der⟩ := by
  rw [encryptBytes_eq] at hsize ⊢
  have hscheme : (schemeId salt iv).toElement.toBytes.length ≤ Der.maxSize :=
    Nat.le_trans (Der.length_toBytes_le_of_mem List.mem_cons_self) hsize
  have htags : Der.tagged [(schemeId salt iv).toElement,
      Der.octetString (encryptedData passphrase salt iv der)] = true := rfl
  unfold ofBytes?
  simp only [Der.parse?_sequence hsize, Der.sequence?_sequence_of_size htags hsize,
    AlgorithmId.ofElement?_toElement (readable_schemeId salt iv) hscheme, scheme_eq hiv hscheme,
    Der.octets?_octetString, Option.bind_eq_bind, Option.bind_some]
  rfl

/-! ## Decrypting -/

theorem length_derivedKey (passphrase salt : Bytes) :
    (derivedKey passphrase salt).length = 8 * 4 := Crypto.length_scrypt _ _ _ _ _ _

theorem key?_written (passphrase salt : Bytes) :
    (Derivation.scrypt salt scryptCost scryptBlockSize scryptLanes none).key? passphrase
      Cipher.aes256.keySize = some (derivedKey passphrase salt) := by
  have hvalid : Derivation.isValidScrypt scryptCost scryptBlockSize scryptLanes = true := by decide
  unfold Derivation.key?
  rw [if_neg fun hsize => hsize rfl]
  exact if_pos hvalid

theorem decrypt?_encrypted (hiv : iv.length = 16) {e : Element} (hparse : Der.parse? der = some e)
    (htag : e.tag = Der.sequenceTag) :
    decrypt? ⟨writtenScheme salt iv, encryptedData passphrase salt iv der⟩ passphrase =
      some der := by
  have hdata : (writtenScheme salt iv).decrypt? passphrase (encryptedData passphrase salt iv der) =
      some der := by
    simp only [writtenScheme, Scheme.decrypt?, key?_written, Option.bind_eq_bind, Option.bind_some]
    exact (Crypto.Aes.cbcEncrypt_spec (by decide) (length_derivedKey _ _) hiv der).2
  unfold decrypt?
  simp only [hdata, hparse, Option.bind_eq_bind, Option.bind_some]
  exact if_pos htag

/-! ## Sizes -/

theorem length_octetString_le {bytes : Bytes} (h : bytes.length < 256 ^ 4) :
    (Der.octetString bytes).toBytes.length ≤ bytes.length + 6 := @Der.length_toBytes_le _ h

theorem length_derivationId_le (hsalt : salt.length = 16) :
    (derivationId salt).toElement.toBytes.length ≤ 55 := by
  have hstring := @length_octetString_le salt (by omega)
  have hcost : (Der.integer scryptCost).toBytes.length = 4 := by decide
  have hblock : (Der.integer scryptBlockSize).toBytes.length = 3 := by decide
  have hlanes : (Der.integer scryptLanes).toBytes.length = 3 := by decide
  have hoid : (Der.oid Derivation.scryptOid).toBytes.length = 11 := by decide
  have hfields : (Der.sequence (scryptFields salt)).toBytes.length ≤ 38 := by
    refine Der.length_sequence_le (n := 32) ?_ (by decide)
    simp only [scryptFields, List.map_cons, List.map_nil, List.flatMap_cons, List.flatMap_nil,
      List.length_append, List.length_nil]
    omega
  refine Der.length_sequence_le (n := 49) ?_ (by decide)
  simp only [derivationId, Option.toList_some, List.flatMap_cons, List.flatMap_nil,
    List.length_append, List.length_nil]
  omega

theorem length_cipherId_le (hiv : iv.length = 16) :
    (cipherId iv).toElement.toBytes.length ≤ 39 := by
  have hstring := @length_octetString_le iv (by omega)
  have hoid : (Der.oid Cipher.aes256.oid).toBytes.length = 11 := by decide
  refine Der.length_sequence_le (n := 33) ?_ (by decide)
  simp only [cipherId, Option.toList_some, List.flatMap_cons, List.flatMap_nil, List.length_append,
    List.length_nil]
  omega

theorem length_schemeId_le (hsalt : salt.length = 16) (hiv : iv.length = 16) :
    (schemeId salt iv).toElement.toBytes.length ≤ 117 := by
  have hderivation := length_derivationId_le hsalt
  have hcipher := length_cipherId_le hiv
  have hoid : (Der.oid Scheme.modernOid).toBytes.length = 11 := by decide
  have hparams : (Der.sequence [(derivationId salt).toElement, (cipherId iv).toElement]).toBytes.length
      ≤ 100 := by
    refine Der.length_sequence_le (n := 94) ?_ (by decide)
    simp only [List.flatMap_cons, List.flatMap_nil, List.length_append, List.length_nil]
    omega
  refine Der.length_sequence_le (n := 111) ?_ (by decide)
  simp only [schemeId, Option.toList_some, List.flatMap_cons, List.flatMap_nil, List.length_append,
    List.length_nil]
  omega

/-- The scheme and the padding need little room. -/
theorem length_encryptBytes_le (passphrase : Bytes) (hsalt : salt.length = 16) (hiv : iv.length = 16)
    (hder : der.length < 256 ^ 4 - 145) :
    (encryptBytes passphrase salt iv der).length ≤ der.length + 145 := by
  have hscheme := length_schemeId_le hsalt hiv
  have hdata := (Crypto.Aes.cbcEncrypt_spec (by decide) (length_derivedKey passphrase salt) hiv
    der).1
  have hpadded : (encryptedData passphrase salt iv der).length ≤ der.length + 16 := by
    rw [encryptedData, hdata]
    omega
  have hstring := @length_octetString_le (encryptedData passphrase salt iv der) (by omega)
  rw [encryptBytes_eq]
  refine Der.length_sequence_le (n := der.length + 139) ?_ (by omega)
  simp only [List.flatMap_cons, List.flatMap_nil, List.length_append, List.length_nil]
  omega

end EncryptedKey

end Firmware.Key
