import Firmware.Key.Load
import Firmware.Proofs.Encoding.Der
import Firmware.Proofs.Encoding.Pem

/-!
# Text that is no public key

`parse_of_isText` : text without a hyphen is never read as a public key.

It is not armoured, so the question is whether it can pass for a structure.  A sequence has the tag of
the digit zero, so a text may well start like one, and a printable character behind it is a short
length.  But then the tag of the first field is a printable character, too.  In an RSA key that field
is a number, and in the structure for all algorithms it is a sequence again, of which the first field
is an object identifier; neither of these tags is printable.
-/

namespace Firmware.Key

open Base64 (isPlain)
open Der (Element)

variable {data : Bytes}

/-! ## Structures that start with characters -/

/-- The fields of the structure that an encoding consists of. -/
def fieldsOf? (der : Bytes) : Option (List Element) := Der.parse? der >>= Element.sequence?

/-- The length that a character stands for is a short one. -/
theorem lt_of_isPlain {b : UInt8} (h : isPlain b = true) : 0x2a < b ∧ b < 0x80 := by
  simp only [isPlain, Bool.and_eq_true, decide_eq_true_eq] at h
  exact ⟨h.1.1, UInt8.lt_trans h.1.2 (by decide)⟩

theorem sequence_of_fieldsOf? {fields : List Element} (h : fieldsOf? data = some fields) :
    ∃ content, Der.readElement data = some (⟨Der.sequenceTag, content⟩, []) ∧
      Der.elements? content = some fields := by
  obtain ⟨e, he, h⟩ := Option.bind_eq_some_iff.mp h
  obtain ⟨content, hcontent, h⟩ := Option.bind_eq_some_iff.mp h
  obtain rfl := Der.expect?_eq_some_iff.mp hcontent
  exact ⟨content, Der.readElement_of_parse? he, h⟩

/-- Behind a short length, the first field is read off what follows. -/
theorem head_of_fieldsOf? {a n b : UInt8} {r : Bytes} {fields : List Element} (hn : n < 0x80)
    (h : fieldsOf? (a :: n :: b :: r) = some fields) :
    ∃ e rest es, Der.readElement (b :: r) = some (e, rest) ∧ fields = e :: es := by
  obtain ⟨content, hread, helements⟩ := sequence_of_fieldsOf? h
  have hcontent := Der.content_of_readElement hn hread
  rw [List.append_nil] at hcontent
  have hstart : content = b :: r := hcontent
  rw [hstart] at helements
  exact Der.head_of_elements? helements

/-- Bytes that are a text: if they start like a structure, at least four characters follow. -/
structure IsText (data : Bytes) : Prop where
  noHyphen : 45 ∉ data
  start : ∀ r, data = Der.sequenceTag :: r →
    ∃ n b m c rest, r = n :: b :: m :: c :: rest ∧ isPlain n = true ∧ isPlain b = true ∧
      isPlain m = true ∧ isPlain c = true

theorem exists_of_fieldsOf? (htext : IsText data) {fields : List Element}
    (h : fieldsOf? data = some fields) :
    ∃ b m c r e rest es, Der.readElement (b :: m :: c :: r) = some (e, rest) ∧ fields = e :: es ∧
      0x2a < b ∧ m < 0x80 ∧ 0x2a < c := by
  obtain ⟨content, hread, -⟩ := sequence_of_fieldsOf? h
  cases data with
  | nil => cases hread
  | cons a r =>
      obtain ⟨htag, -⟩ := Der.spec_of_readElement hread
      have ha : Der.sequenceTag = a := htag
      obtain ⟨n, b, m, c, rest, rfl, hn, hb, hm, hc⟩ := htext.start r (by rw [ha])
      obtain ⟨e, rest', es, he, hfields⟩ := head_of_fieldsOf? (lt_of_isPlain hn).2 h
      exact ⟨b, m, c, rest, e, rest', es, he, hfields, (lt_of_isPlain hb).1, (lt_of_isPlain hm).2,
        (lt_of_isPlain hc).1⟩

/-! ## No key -/

theorem rsaPublicOf?_of_isText (htext : IsText data) : rsaPublicOf? data = none := by
  rw [Option.eq_none_iff_forall_ne_some]
  intro key h
  obtain ⟨e, he, h⟩ := Option.bind_eq_some_iff.mp h
  obtain ⟨fields, hfields, h⟩ := Option.bind_eq_some_iff.mp h
  obtain ⟨numbers, hnumbers, -⟩ := Option.bind_eq_some_iff.mp h
  have hstructure : fieldsOf? data = some fields := Option.bind_eq_some_iff.mpr ⟨e, he, hfields⟩
  obtain ⟨b, m, c, r, field, rest, es, hread, rfl, hb, -⟩ := exists_of_fieldsOf? htext hstructure
  obtain ⟨htag, -⟩ := Der.spec_of_readElement hread
  rw [List.mapM_cons] at hnumbers
  obtain ⟨n, hn, -⟩ := Option.bind_eq_some_iff.mp hnumbers
  obtain ⟨content, hcontent, -⟩ := Option.bind_eq_some_iff.mp hn
  obtain rfl := Der.expect?_eq_some_iff.mp hcontent
  have hnumber : Der.integerTag = b := htag
  rw [← hnumber] at hb
  exact absurd hb (by decide)

/-- The first field of an algorithm identifier is an object identifier. -/
theorem content_of_ofElement? {e : Element} {a : AlgorithmId}
    (h : AlgorithmId.ofElement? e = some a) : ∃ r, e.content = Der.oidTag :: r := by
  obtain ⟨fields, hfields, h⟩ := Option.bind_eq_some_iff.mp h
  have hfirst : ∃ field es, fields = field :: es ∧ ∃ oid, field.oid? = some oid := by
    split at h
    · obtain ⟨oid, hoid, -⟩ := Option.bind_eq_some_iff.mp h
      exact ⟨_, _, rfl, oid, hoid⟩
    · obtain ⟨oid, hoid, -⟩ := Option.bind_eq_some_iff.mp h
      exact ⟨_, _, rfl, oid, hoid⟩
    · cases h
  obtain ⟨content, hcontent, helements⟩ := Option.bind_eq_some_iff.mp hfields
  obtain rfl := Der.expect?_eq_some_iff.mp hcontent
  obtain ⟨field, es, rfl, oid, hoid⟩ := hfirst
  obtain ⟨body, hbody, -⟩ := Option.bind_eq_some_iff.mp hoid
  obtain rfl := Der.expect?_eq_some_iff.mp hbody
  cases content with
  | nil =>
      rw [Der.elements?] at helements
      cases helements
  | cons b r =>
      obtain ⟨e, rest, es', hread, hsame⟩ := Der.head_of_elements? helements
      obtain ⟨rfl, -⟩ := List.cons.inj hsame
      obtain ⟨htag, -⟩ := Der.spec_of_readElement hread
      exact ⟨r, congrArg (· :: r) htag.symm⟩

theorem ofBytes?_of_isText (htext : IsText data) : PublicKeyInfo.ofBytes? data = none := by
  rw [Option.eq_none_iff_forall_ne_some]
  intro info h
  obtain ⟨e, he, h⟩ := Option.bind_eq_some_iff.mp h
  obtain ⟨fields, hfields, h⟩ := Option.bind_eq_some_iff.mp h
  have hstructure : fieldsOf? data = some fields := Option.bind_eq_some_iff.mpr ⟨e, he, hfields⟩
  obtain ⟨b, m, c, r, field, rest, es, hread, rfl, -, hm, hc⟩ := exists_of_fieldsOf? htext hstructure
  have hcontent := Der.content_of_readElement hm hread
  split at h
  · rename_i hpair
    obtain ⟨rfl, -⟩ := List.cons.inj hpair
    obtain ⟨a, ha, -⟩ := Option.bind_eq_some_iff.mp h
    obtain ⟨r', hr'⟩ := content_of_ofElement? ha
    rw [hr'] at hcontent
    have hoid : Der.oidTag = c := (List.cons.inj hcontent).1
    rw [← hoid] at hc
    exact absurd hc (by decide)
  · cases h

theorem parse_of_isText (htext : IsText data) :
    PublicKey.parse data = .error .unrecognizedPublic := by
  have hplain : ¬Pem.isArmoured data = true := by
    rw [Pem.isArmoured_iff, Pem.beginMark_eq]
    intro hmark
    exact htext.noHyphen (hmark.subset List.mem_cons_self)
  rw [PublicKey.parse, if_neg hplain, barePublicKeyOf, publicKeyOf, ofBytes?_of_isText htext]
  dsimp only [Option.elim]
  rw [rsaPublicOf?_of_isText htext]

theorem parseRsaPublic_of_isText (htext : IsText data) :
    parseRsaPublic data = .error .unrecognizedPublic := by
  rw [parseRsaPublic, parse_of_isText htext]
  rfl

end Firmware.Key
