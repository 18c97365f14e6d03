import Firmware.Proofs.Image.Decrypt
import Firmware.Proofs.Image.Format
import Firmware.Proofs.Legacy.Format
import Firmware.Proofs.Secret
import Firmware.Proofs.Verify.Legacy

/-!
# What a content hash binds

`contentHash_binds` : images of one format that pass the check of their content hash, with the same
initial hash, and that carry the same hash have the same header, padding and plaintext, or else the
byte strings that were hashed are a collision.  That no collision can be found is nowhere assumed;
the collision is named instead.

The hash covers these parts one behind the other with nothing in between.  What separates them is
the header: it has a fixed length, it can be read back from its bytes, and it declares the length
of the padding (`Content.eq_of_hashed_eq`).
-/

namespace Firmware

/-- Different byte strings with the same digest. -/
structure Collision (x y : Bytes) : Prop where
  ne : x ≠ y
  same : Crypto.sha256 x = Crypto.sha256 y

/-! ## Headers -/

/-- What is read back as it was written can be told from its bytes. -/
theorem injective_of_read? {α : Type} {toBytes : α → Bytes} {magic : UInt32}
    {read? : Bytes → Option (UInt32 × α × Bytes)}
    (h : ∀ {bs rest a}, read? bs = some (magic, a, rest) ↔ bs = toBytes a ++ rest) :
    Function.Injective toBytes := by
  intro a b hsame
  have ha : read? (toBytes a) = some (magic, a, []) := h.mpr (List.append_nil _).symm
  have hb : read? (toBytes b) = some (magic, b, []) := h.mpr (List.append_nil _).symm
  rw [hsame, hb] at ha
  cases ha
  rfl

theorem Image.Header.toBytes_injective : Function.Injective Image.Header.toBytes :=
  injective_of_read? Image.Header.read?_eq_some_iff

theorem Legacy.Header.toBytes_injective : Function.Injective Legacy.Header.toBytes :=
  injective_of_read? Legacy.Header.read?_eq_some_iff

/-! ## Content -/

namespace Content

/-- The headers of a format, with what tells them from the padding behind them. -/
structure HeaderFormat (α : Type) where
  toBytes : α → Bytes
  headerSize : α → UInt16
  injective : Function.Injective toBytes
  length : ∀ header, (toBytes header).length = headerLength

/-- Header, padding and body can be told apart in what is hashed. -/
theorem eq_of_hashed_eq {α : Type} (format : HeaderFormat α) {initial : Option Bytes} {a b : α}
    {sizeA sizeB : UInt32} {padA padB bodyA bodyB plainA plainB : Bytes}
    (ha : Fits (format.headerSize a) sizeA padA bodyA)
    (hb : Fits (format.headerSize b) sizeB padB bodyB)
    (h : hashed initial (format.toBytes a) padA plainA =
      hashed initial (format.toBytes b) padB plainB) :
    a = b ∧ padA = padB ∧ plainA = plainB := by
  simp only [hashed, List.append_assoc] at h
  obtain ⟨hheader, hrest⟩ := List.append_inj (List.append_cancel_left h)
    ((format.length a).trans (format.length b).symm)
  obtain rfl : a = b := format.injective hheader
  have hpads : padA.length = padB.length :=
    Nat.add_left_cancel (ha.length_pad.trans hb.length_pad.symm)
  obtain ⟨hpad, hplain⟩ := List.append_inj hrest hpads
  exact ⟨rfl, hpad, hplain⟩

theorem eq_or_collision {α : Type} (format : HeaderFormat α) {initial : Option Bytes} {a b : α}
    {sizeA sizeB : UInt32} {padA padB bodyA bodyB plainA plainB : Bytes}
    (ha : Fits (format.headerSize a) sizeA padA bodyA)
    (hb : Fits (format.headerSize b) sizeB padB bodyB)
    (h : Crypto.sha256 (hashed initial (format.toBytes a) padA plainA) =
      Crypto.sha256 (hashed initial (format.toBytes b) padB plainB)) :
    (a = b ∧ padA = padB ∧ plainA = plainB) ∨
      Collision (hashed initial (format.toBytes a) padA plainA)
        (hashed initial (format.toBytes b) padB plainB) := by
  by_cases hsame : hashed initial (format.toBytes a) padA plainA =
      hashed initial (format.toBytes b) padB plainB
  · exact .inl (eq_of_hashed_eq format ha hb hsame)
  · exact .inr ⟨hsame, h⟩

end Content

def Image.headerFormat : Content.HeaderFormat Image.Header where
  toBytes := Image.Header.toBytes
  headerSize := Image.Header.headerSize
  injective := Image.Header.toBytes_injective
  length := Image.Header.length_toBytes

def Legacy.headerFormat : Content.HeaderFormat Legacy.Header where
  toBytes := Legacy.Header.toBytes
  headerSize := Legacy.Header.headerSize
  injective := Legacy.Header.toBytes_injective
  length := Legacy.Header.length_toBytes

/-! ## Images -/

namespace Verify

/-- Images with the same content hash have the same content, or their contents collide. -/
theorem contentHash_binds :
    (∀ (dataA dataB : Bytes) (a b : Image) (initial : Option Bytes)
      (keyA keyB : Option Secret.UnwrapKey), Image.parse dataA = .ok a → Image.parse dataB = .ok b →
      checkHash a initial keyA = .ok () → checkHash b initial keyB = .ok () → a.hash = b.hash →
      ∃ bodyA bodyB, PlainBody a keyA bodyA ∧ PlainBody b keyB bodyB ∧
        ((a.header = b.header ∧ a.pad = b.pad ∧ bodyA = bodyB) ∨
          Collision (Content.hashed initial a.header.toBytes a.pad bodyA)
            (Content.hashed initial b.header.toBytes b.pad bodyB))) ∧
    ∀ (dataA dataB : Bytes) (a b : Legacy) (initial : Option Bytes), Legacy.parse dataA = .ok a →
      Legacy.parse dataB = .ok b → checkLegacy a initial none = .ok () →
      checkLegacy b initial none = .ok () → a.hash = b.hash →
      (a.header = b.header ∧ a.pad = b.pad ∧ a.body = b.body) ∨
        Collision (Content.hashed initial a.header.toBytes a.pad a.body)
          (Content.hashed initial b.header.toBytes b.pad b.body) := by
  constructor
  · intro dataA dataB a b initial keyA keyB hparseA hparseB hcheckA hcheckB hsame
    obtain ⟨bodyA, hbodyA, hhashA⟩ := checkHash_eq_ok_iff.mp hcheckA
    obtain ⟨bodyB, hbodyB, hhashB⟩ := checkHash_eq_ok_iff.mp hcheckB
    have hdigest := Except.ok.inj (hhashA.symm.trans (hsame.trans hhashB))
    exact ⟨bodyA, bodyB, hbodyA, hbodyB, Content.eq_or_collision Image.headerFormat
      (Image.parse_eq_ok_iff_denotes.mp hparseA).content
      (Image.parse_eq_ok_iff_denotes.mp hparseB).content hdigest⟩
  · intro dataA dataB a b initial hparseA hparseB hcheckA hcheckB hsame
    have hhashA := checkLegacy_none_eq_ok_iff.mp hcheckA
    have hhashB := checkLegacy_none_eq_ok_iff.mp hcheckB
    have hdigest := Except.ok.inj (hhashA.symm.trans (hsame.trans hhashB))
    exact Content.eq_or_collision Legacy.headerFormat
      (Legacy.parse_eq_ok_iff_denotes.mp hparseA).content
      (Legacy.parse_eq_ok_iff_denotes.mp hparseB).content hdigest

/-! ### Twins

An image encrypted with either of two secrets, each of them wrapped with a key of its own, and a
legacy image with either of two values that no hash covers.
-/

namespace Twins

/-- A key of 16 equal bytes. -/
def key (b : UInt8) : Key128 := ⟨List.replicate 16 b, rfl⟩

def header : Image.Header :=
  { headerSize := 34, bodySize := 3, flags := Image.flagEncrypted, version := ⟨1, 0, 0, 0⟩ }

def hash : Bytes := Image.contentHashOf none header [8, 9] [1, 2, 3]

/-- A secret as a key wraps it. -/
def wrapped (kek secret : UInt8) : Tlv where
  tag := Tlv.encKekTag
  data := Crypto.KeyWrap.wrap (key kek).bytes (key secret).bytes

/-- The image with the body `[1, 2, 3]`. -/
def image (kek secret : UInt8) : Image where
  header := header
  pad := [8, 9]
  body := Secret.crypt (key secret) [1, 2, 3]
  tlvs := [⟨Tlv.sha256Tag, 0, hash⟩, wrapped kek secret]

def file (kek secret : UInt8) : Bytes :=
  header.toBytes ++
    ([8, 9] ++ (image kek secret).body ++ Image.tlvBytes (image kek secret).tlvs)

theorem isEncrypted_image (kek secret : UInt8) :
    (image kek secret).header.isEncrypted = true := by
  show header.isEncrypted = true
  decide

theorem length_hash : hash.length = Content.hashLength := Crypto.length_sha256 _

theorem length_wrapped (kek secret : UInt8) : (wrapped kek secret).data.length = 24 :=
  (@Crypto.KeyWrap.wrap_spec _ _ 2 (key kek).length_eq (key secret).length_eq).1

theorem parse_file (kek secret : UInt8) :
    Image.parse (file kek secret) = .ok (image kek secret) := by
  have htlvs : Image.TlvsFit (image kek secret).tlvs := by
    have hsize : Tlv.areaSize (image kek secret).tlvs =
        4 + hash.length + (4 + (wrapped kek secret).data.length + 0) := rfl
    rw [Image.TlvsFit, hsize, length_hash, length_wrapped]
    decide
  have hcontent : Content.Fits header.headerSize header.bodySize [8, 9]
      (Secret.crypt (key secret) [1, 2, 3]) := ⟨rfl, Secret.length_crypt _ _⟩
  exact Image.parse_eq_ok_iff_denotes.mpr ⟨hcontent, htlvs, rfl⟩

theorem hash_image (kek secret : UInt8) : (image kek secret).hash = .ok hash :=
  hash_eq_ok_iff.mpr ⟨_, rfl, rfl, length_hash⟩

theorem checkHash_image (kek secret : UInt8) :
    checkHash (image kek secret) none (some (.kek (key kek))) = .ok () := by
  have hunwrap := Secret.unwrap_kek (key kek) (key secret)
  have hbody : (image kek secret).decryptedBody (.kek (key kek)) = .ok [1, 2, 3] :=
    Image.decryptedBody_eq_ok_iff.mpr ⟨isEncrypted_image kek secret, wrapped kek secret,
      key secret, rfl, hunwrap, Secret.crypt_crypt _ _⟩
  exact checkHash_eq_ok_iff.mpr ⟨[1, 2, 3],
    .decrypted _ _ (isEncrypted_image kek secret) hbody, hash_image kek secret⟩

def legacyHeader : Legacy.Header :=
  { tlvSize := 41, headerSize := 34, bodySize := 3, flags := Legacy.flagSha256,
    version := ⟨1, 0, 0, 0⟩ }

def legacyHash : Bytes := Crypto.sha256 (Content.hashed none legacyHeader.toBytes [8, 9] [1, 2, 3])

/-- The legacy image with a byte behind its hash. -/
def legacy (b : UInt8) : Legacy where
  header := legacyHeader
  pad := [8, 9]
  body := [1, 2, 3]
  tlvs := [⟨Legacy.sha256Tag, 0, legacyHash⟩, ⟨0xa0, 0, [b]⟩]

def legacyFile (b : UInt8) : Bytes :=
  legacyHeader.toBytes ++ ([8, 9] ++ [1, 2, 3] ++ (legacy b).tlvs.flatMap Tlv.toBytes)

theorem length_legacyHash : legacyHash.length = Content.hashLength := Crypto.length_sha256 _

theorem parse_legacyFile (b : UInt8) : Legacy.parse (legacyFile b) = .ok (legacy b) := by
  have hsize : (legacy b).tlvSize = 4 + legacyHash.length + 5 := rfl
  refine Legacy.parse_eq_ok_iff_denotes.mpr ⟨⟨rfl, rfl⟩, ?_, rfl⟩
  rw [hsize, length_legacyHash]
  rfl

theorem hash_legacy (b : UInt8) : (legacy b).hash = .ok legacyHash :=
  legacyHash_eq_ok_iff.mpr ⟨_, rfl, rfl, length_legacyHash⟩

theorem checkLegacy_legacy (b : UInt8) : checkLegacy (legacy b) none none = .ok () :=
  checkLegacy_none_eq_ok_iff.mpr (hash_legacy b)

end Twins

/-- The content hash binds the plaintext of an image that is encrypted in two ways, and the body of
two legacy images that differ in a value behind it. -/
theorem contentHash_binds_twins :
    ((Twins.image 1 2).hash = (Twins.image 3 4).hash ∧
      ∃ bodyA bodyB, PlainBody (Twins.image 1 2) (some (.kek (Twins.key 1))) bodyA ∧
        PlainBody (Twins.image 3 4) (some (.kek (Twins.key 3))) bodyB ∧
        ((Twins.image 1 2).header = (Twins.image 3 4).header ∧
            (Twins.image 1 2).pad = (Twins.image 3 4).pad ∧ bodyA = bodyB ∨
          Collision (Content.hashed none (Twins.image 1 2).header.toBytes (Twins.image 1 2).pad bodyA)
            (Content.hashed none (Twins.image 3 4).header.toBytes (Twins.image 3 4).pad bodyB))) ∧
    (Twins.legacy 5).hash = (Twins.legacy 6).hash ∧
      ((Twins.legacy 5).header = (Twins.legacy 6).header ∧
          (Twins.legacy 5).pad = (Twins.legacy 6).pad ∧
          (Twins.legacy 5).body = (Twins.legacy 6).body ∨
        Collision
          (Content.hashed none (Twins.legacy 5).header.toBytes (Twins.legacy 5).pad
            (Twins.legacy 5).body)
          (Content.hashed none (Twins.legacy 6).header.toBytes (Twins.legacy 6).pad
            (Twins.legacy 6).body)) := by
  have himages : (Twins.image 1 2).hash = (Twins.image 3 4).hash :=
    (Twins.hash_image 1 2).trans (Twins.hash_image 3 4).symm
  have hlegacy : (Twins.legacy 5).hash = (Twins.legacy 6).hash :=
    (Twins.hash_legacy 5).trans (Twins.hash_legacy 6).symm
  exact ⟨⟨himages, contentHash_binds.1 _ _ _ _ none _ _ (Twins.parse_file 1 2)
      (Twins.parse_file 3 4) (Twins.checkHash_image 1 2) (Twins.checkHash_image 3 4) himages⟩,
    hlegacy, contentHash_binds.2 _ _ _ _ none (Twins.parse_legacyFile 5)
      (Twins.parse_legacyFile 6) (Twins.checkLegacy_legacy 5) (Twins.checkLegacy_legacy 6) hlegacy⟩

end Verify

end Firmware
