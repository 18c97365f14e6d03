import Firmware.Key.Structure
import Firmware.Proofs.Crypto.Curve
import Firmware.Proofs.Encoding.Der

/-!
# Key structures are read back

For every structure that is written there is a lemma that reading gives back what was put in, as
long as the encoding is within the size that is read at all.
-/

namespace Firmware.Key

open Der (Element)

/-! ## Curves -/

theorem order_lt (curve : EcCurve) : curve.params.n < 256 ^ curve.params.fieldSize := by
  cases curve with
  | p224 => decide
  | p256 => decide

theorem field_le (curve : EcCurve) : curve.params.p ≤ 256 ^ curve.params.fieldSize := by
  cases curve with
  | p224 => decide
  | p256 => decide

theorem EcCurve.ofOid?_oid (curve : EcCurve) : ofOid? curve.oid = some curve := by
  cases curve with
  | p224 => decide
  | p256 => decide

/-! ## Algorithm identifiers -/

namespace AlgorithmId

variable {a : AlgorithmId}

/-- An identifier with a path, and parameters with a tag that may occur. -/
structure Readable (a : AlgorithmId) : Prop where
  oid : Oid.ofBytes? a.oid.body = some a.oid
  params : Der.tagged a.params.toList = true

theorem readable_rsa : rsa.Readable := ⟨by decide, rfl⟩

theorem readable_ec (c : EcCurve) : (ec c).Readable := by
  refine ⟨?_, rfl⟩
  show Oid.ofBytes? ecOid.body = some ecOid
  decide

theorem readable_ed25519 : ed25519.Readable := ⟨by decide, rfl⟩

theorem oid_rsa : rsa.oid = rsaOid := rfl

theorem oid_ec (c : EcCurve) : (ec c).oid = ecOid := rfl

theorem oid_ed25519 : ed25519.oid = ed25519Oid := rfl

theorem ec_ne_rsa (c : EcCurve) : (ec c).oid ≠ rsaOid := by
  rw [oid_ec]
  decide

theorem ed25519_ne_rsa : ed25519.oid ≠ rsaOid := by decide

theorem ed25519_ne_ec : ed25519.oid ≠ ecOid := by decide

theorem paramsOid?_ec (c : EcCurve) : (ec c).paramsOid? = some c.oid := by
  cases c with
  | p224 => decide
  | p256 => decide

theorem ofElement?_toElement (h : a.Readable) (hsize : a.toElement.toBytes.length ≤ Der.maxSize) :
    ofElement? a.toElement = some a := by
  have hfields : a.toElement.sequence? = some (Der.oid a.oid :: a.params.toList) :=
    Der.sequence?_sequence_of_size h.params hsize
  obtain ⟨oid, params⟩ := a
  have hoid : (Der.oid oid).oid? = some oid := Der.oid?_oid h.oid
  unfold ofElement?
  rw [hfields]
  cases params with
  | none =>
      show (Der.oid oid).oid? >>= _ = _
      rw [hoid]
      rfl
  | some params =>
      show (Der.oid oid).oid? >>= _ = _
      rw [hoid]
      rfl

end AlgorithmId

/-! ## RSA keys -/

theorem rsaPublicOf?_rsaPublicBytes {key : Crypto.Rsa.PublicKey} (hvalid : key.isValid = true)
    (hbits : Crypto.Rsa.bitLength key.modulus ≤ Crypto.Rsa.PublicKey.maxBits)
    (hsize : (rsaPublicBytes key).length ≤ Der.maxSize) :
    rsaPublicOf? (rsaPublicBytes key) = some key := by
  have hfields := Der.sequence?_sequence_of_size (Der.tagged_map_integer _) hsize
  unfold rsaPublicOf? rsaPublicBytes
  simp only [Der.parse?_sequence hsize, hfields, Der.mapM_natural?_map_integer, Option.bind_eq_bind,
    Option.bind_some]
  exact if_pos ⟨hvalid, hbits⟩

theorem rsaPrivateOf?_of_bytes {key : Crypto.Rsa.PrivateKey} {der : Bytes}
    (hvalid : key.isValid = true) (hder : rsaPrivateBytes? key = some der)
    (hsize : der.length ≤ Der.maxSize) : rsaPrivateOf? der = some key := by
  obtain ⟨coefficient, -, hder⟩ := Option.bind_eq_some_iff.mp hder
  obtain rfl := Option.some.inj hder
  have hfields := Der.sequence?_sequence_of_size (Der.tagged_map_integer _) hsize
  unfold rsaPrivateOf?
  simp only [Der.parse?_sequence hsize, hfields, Der.mapM_natural?_map_integer, Option.bind_eq_bind,
    Option.bind_some]
  exact if_pos ⟨trivial, hvalid⟩

/-! ## Elliptic curve keys -/

theorem scalar_lt {c : EcCurve} {d : Nat} {k : SigningKey}
    (hkey : SigningKey.ofScalar? c d = some k) : d < c.params.n := by
  unfold SigningKey.ofScalar? at hkey
  split at hkey
  · rename_i hrange
    exact hrange.2
  · cases hkey

namespace EcPrivate

variable {c : EcCurve} {d : Nat} {q : Crypto.Curve.Point}

theorem ofBytes?_bytes (hsize : (bytes c d q).length ≤ Der.maxSize) :
    ofBytes? (bytes c d q) =
      some ⟨Bytes.ofNatBE c.params.fieldSize d, none, some (c.params.encode q)⟩ := by
  have htags : Der.tagged
      [Der.integer 1, Der.octetString (Bytes.ofNatBE c.params.fieldSize d),
        Der.explicit 1 (Der.bitString (.ofBytes (c.params.encode q)))] = true := by
    show (true && (true && (Der.isTag (Der.explicitTag 1) && true))) = true
    decide
  have hmem : Der.explicit 1 (Der.bitString (.ofBytes (c.params.encode q))) ∈
      [Der.integer 1, Der.octetString (Bytes.ofNatBE c.params.fieldSize d),
        Der.explicit 1 (Der.bitString (.ofBytes (c.params.encode q)))] :=
    List.mem_cons_of_mem _ (List.mem_cons_of_mem _ List.mem_cons_self)
  have hpoint := @Der.explicit?_explicit 1 (Der.bitString (.ofBytes (c.params.encode q))) rfl
    (Nat.le_trans (Nat.le_of_lt (Der.length_lt_explicit 1 _))
      (Nat.le_trans (Der.length_toBytes_le_of_mem hmem) hsize))
  have hcurve (e : Element) : Der.takeField 0 [Der.explicit 1 e] = (none, [Der.explicit 1 e]) :=
    Der.takeField_cons Der.numbered_explicitTag (Nat.zero_le 1) []
  have hfield (e : Element) : Der.takeField 1 [Der.explicit 1 e] = (some (Der.explicit 1 e), []) :=
    Der.takeField_cons Der.numbered_explicitTag (Nat.le_refl 1) []
  unfold ofBytes? bytes
  simp only [Der.parse?_sequence hsize, Der.sequence?_sequence_of_size htags hsize,
    Der.natural?_integer, Der.octets?_octetString, hcurve, hfield, optional?, hpoint,
    Der.bits?_bitString_ofBytes, Der.Bits.toBytes?_ofBytes, Option.bind_eq_bind, Option.bind_some]
  rfl

/-- A scalar and its point are the key that they were written for. -/
theorem toKey?_eq (hkey : SigningKey.ofScalar? c d = some (.ec c d q)) :
    toKey? c ⟨Bytes.ofNatBE c.params.fieldSize d, none, some (c.params.encode q)⟩ =
      some (.ec c d q) := by
  have hscalar : Bytes.toNatBE (Bytes.ofNatBE c.params.fieldSize d) = d :=
    Bytes.toNatBE_ofNatBE_of_lt (Nat.lt_trans (scalar_lt hkey) (order_lt c))
  have hleast : minScalarSize ≤ c.params.fieldSize := by
    cases c with
    | p224 => decide
    | p256 => decide
  unfold toKey?
  simp only [Bytes.length_ofNatBE, hscalar, hkey]
  rw [if_pos ⟨hleast, Nat.le_refl _⟩]
  exact if_pos (.inl trivial)

end EcPrivate

/-! ## Private keys of any algorithm -/

namespace PrivateKeyInfo

variable {a : AlgorithmId} {key publicKey : Bytes}

/-- The field with the public key. -/
def publicField (publicKey : Bytes) : Element :=
  ⟨Der.implicitTag 1, (Der.Bits.ofBytes publicKey).content⟩

theorem toBytes_none (a : AlgorithmId) (key : Bytes) :
    (PrivateKeyInfo.mk a key none).toBytes =
      (Der.sequence [Der.integer 0, a.toElement, Der.octetString key]).toBytes := rfl

theorem toBytes_some (a : AlgorithmId) (key publicKey : Bytes) :
    (PrivateKeyInfo.mk a key (some publicKey)).toBytes =
      (Der.sequence
        [Der.integer 1, a.toElement, Der.octetString key, publicField publicKey]).toBytes := rfl

theorem length_key_le (i : PrivateKeyInfo) : i.key.length ≤ i.toBytes.length := by
  have hmem : Der.octetString i.key ∈
      [Der.integer (if i.publicKey.isSome then 1 else 0), i.algorithm.toElement,
        Der.octetString i.key] ++ i.publicKey.toList.map publicField :=
    List.mem_append_left _ (List.mem_cons_of_mem _ (List.mem_cons_of_mem _ List.mem_cons_self))
  exact Nat.le_trans (Nat.le_of_lt (Der.length_lt_octetString i.key))
    (Der.length_toBytes_le_of_mem hmem)

theorem ofBytes?_toBytes_none (h : a.Readable)
    (hsize : (PrivateKeyInfo.mk a key none).toBytes.length ≤ Der.maxSize) :
    ofBytes? (PrivateKeyInfo.mk a key none).toBytes = some ⟨a, key, none⟩ := by
  rw [toBytes_none] at hsize ⊢
  have htags : Der.tagged [Der.integer 0, a.toElement, Der.octetString key] = true := rfl
  have hmem : a.toElement ∈ [Der.integer 0, a.toElement, Der.octetString key] :=
    List.mem_cons_of_mem _ List.mem_cons_self
  have halgorithm := AlgorithmId.ofElement?_toElement h
    (Nat.le_trans (Der.length_toBytes_le_of_mem hmem) hsize)
  have hversion : (Der.integer 0).naturalBelow? 2 = some 0 := Der.naturalBelow?_integer (by decide)
  have hfield : Der.takeField 1 [] = (none, []) := rfl
  unfold ofBytes?
  simp only [Der.parse?_sequence hsize, Der.sequence?_sequence_of_size htags hsize, hversion,
    halgorithm, Der.octets?_octetString, hfield, EcPrivate.optional?, Option.bind_eq_bind,
    Option.bind_some]
  rfl

theorem ofBytes?_toBytes_some (h : a.Readable)
    (hsize : (PrivateKeyInfo.mk a key (some publicKey)).toBytes.length ≤ Der.maxSize) :
    ofBytes? (PrivateKeyInfo.mk a key (some publicKey)).toBytes = some ⟨a, key, some publicKey⟩ := by
  rw [toBytes_some] at hsize ⊢
  have htags : Der.tagged
      [Der.integer 1, a.toElement, Der.octetString key, publicField publicKey] = true := by
    show (true && (true && (true && (Der.isTag (Der.implicitTag 1) && true)))) = true
    decide
  have hmem : a.toElement ∈
      [Der.integer 1, a.toElement, Der.octetString key, publicField publicKey] :=
    List.mem_cons_of_mem _ List.mem_cons_self
  have halgorithm := AlgorithmId.ofElement?_toElement h
    (Nat.le_trans (Der.length_toBytes_le_of_mem hmem) hsize)
  have hversion : (Der.integer 1).naturalBelow? 2 = some 1 := Der.naturalBelow?_integer (by decide)
  have hfield : Der.takeField 1 [publicField publicKey] = (some (publicField publicKey), []) :=
    Der.takeField_cons Der.numbered_implicitTag (Nat.le_refl 1) []
  have hexpect : (publicField publicKey).expect? (Der.implicitTag 1) =
      some (Der.Bits.ofBytes publicKey).content := if_pos rfl
  have hbits : Der.Bits.ofContent? (Der.Bits.ofBytes publicKey).content =
      some (.ofBytes publicKey) := rfl
  unfold ofBytes?
  simp only [Der.parse?_sequence hsize, Der.sequence?_sequence_of_size htags hsize, hversion,
    halgorithm, Der.octets?_octetString, hfield, EcPrivate.optional?, hexpect, hbits,
    Der.Bits.toBytes?_ofBytes, Option.bind_eq_bind, Option.bind_some]
  rfl

theorem toKey_rsa (key : Bytes) (publicKey : Option Bytes) :
    toKey ⟨.rsa, key, publicKey⟩ = (rsaPrivateOf? key).elim (.error .loadPkcs8) (.ok ∘ .rsa) := by
  have hrsa : AlgorithmId.rsa.isRsa = true := by decide
  unfold toKey
  rw [if_pos AlgorithmId.oid_rsa, if_pos hrsa]

theorem toKey_ec (c : EcCurve) (key : Bytes) (publicKey : Option Bytes) :
    toKey ⟨.ec c, key, publicKey⟩ =
      (EcPrivate.ofBytes? key >>= (·.toKey? c)).elim (.error .loadPkcs8) .ok := by
  unfold toKey
  rw [if_neg (AlgorithmId.ec_ne_rsa c), if_pos (AlgorithmId.oid_ec c), AlgorithmId.paramsOid?_ec]
  dsimp only
  rw [EcCurve.ofOid?_oid]

theorem toKey_ed25519 {key seed : Bytes} (publicKey : Option Bytes)
    (hkey : Der.parse? key = some (Der.octetString seed)) (hseed : seed.length = 32) :
    toKey ⟨.ed25519, key, publicKey⟩ = .ok (.ed25519 seed) := by
  unfold toKey
  rw [if_neg AlgorithmId.ed25519_ne_rsa, if_neg AlgorithmId.ed25519_ne_ec,
    if_pos AlgorithmId.oid_ed25519, hkey]
  exact if_pos hseed

end PrivateKeyInfo

/-! ## Public keys of any algorithm -/

namespace PublicKeyInfo

theorem ofBytes?_toBytes {a : AlgorithmId} {bytes : Bytes} (h : a.Readable)
    (hsize : (PublicKeyInfo.mk a (.ofBytes bytes)).toBytes.length ≤ Der.maxSize) :
    ofBytes? (PublicKeyInfo.mk a (.ofBytes bytes)).toBytes = some ⟨a, .ofBytes bytes⟩ := by
  have hmem : a.toElement ∈ [a.toElement, Der.bitString (.ofBytes bytes)] := List.mem_cons_self
  have halgorithm := AlgorithmId.ofElement?_toElement h
    (Nat.le_trans (Der.length_toBytes_le_of_mem hmem) hsize)
  have htags : Der.tagged [a.toElement, Der.bitString (.ofBytes bytes)] = true := rfl
  unfold ofBytes? toBytes
  simp only [Der.parse?_sequence hsize, Der.sequence?_sequence_of_size htags hsize, halgorithm,
    Der.bits?_bitString_ofBytes, Option.bind_eq_bind, Option.bind_some]
  rfl

theorem toKey_rsa (bits : Der.Bits) :
    toKey ⟨.rsa, bits⟩ =
      (bits.toBytes? >>= rsaPublicOf?).elim (.error .loadPublic) (.ok ∘ .rsa) := by
  have hrsa : AlgorithmId.rsa.isRsa = true := by decide
  unfold toKey
  rw [if_pos AlgorithmId.oid_rsa, if_pos hrsa]

theorem toKey_ec (c : EcCurve) (bits : Der.Bits) :
    toKey ⟨.ec c, bits⟩ =
      (bits.toBytes? >>= c.params.decode?).elim (.error .loadPublic) (.ok ∘ .ec c) := by
  unfold toKey
  rw [if_neg (AlgorithmId.ec_ne_rsa c), if_pos (AlgorithmId.oid_ec c), AlgorithmId.paramsOid?_ec]
  dsimp only
  rw [EcCurve.ofOid?_oid]

theorem toKey_ed25519 (bytes : Bytes) :
    toKey ⟨.ed25519, .ofBytes bytes⟩ =
      if Crypto.Ed25519.isKey bytes then .ok (.ed25519 bytes) else .error .invalidEd25519 := by
  unfold toKey
  rw [if_neg AlgorithmId.ed25519_ne_rsa, if_neg AlgorithmId.ed25519_ne_ec,
    if_pos AlgorithmId.oid_ed25519]
  rfl

end PublicKeyInfo

end Firmware.Key
