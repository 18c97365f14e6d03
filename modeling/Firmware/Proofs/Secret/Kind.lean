import Firmware.Proofs.Crypto.Primality
import Firmware.Proofs.Key.PlainText
import Firmware.Proofs.Key.PublicKey
import Firmware.Proofs.Secret
import Firmware.Proofs.Text.Trim

/-!
# The kind of a key decides

`wrap_unwrap_by_kind` : a secret is wrapped with whatever key the given bytes are, and only a key of
the same kind unwraps it, to the same secret.

The bytes say nothing about their kind.  They are tried as an RSA public key first, and what is none
is taken for the text of a key-encryption key.  Such a text may start with the digit zero, which is
the tag of a structure, so what has to be seen is that it is an RSA key in no case (`isText`); blanks
in front of it cannot be taken for a tag, since none of their bytes is a printable character.
Unwrapping tells the kinds apart by the tag of the value instead.
-/

namespace Firmware.Secret

open Base64 (isPlain)

variable {kek : Key128} {data : Bytes} {source : RandomSource}

/-! ## Texts of a key-encryption key -/

/-- A text with a key-encryption key: the key in base64, with blanks around it. -/
def IsKekText (kek : Key128) (data : Bytes) : Prop :=
  ∃ front back : String, (∀ c ∈ front.toList, Text.isBlank c = true) ∧
    (∀ c ∈ back.toList, Text.isBlank c = true) ∧
    data = Bytes.ofText front ++ Base64.encode kek.bytes ++ Bytes.ofText back

theorem isBetween_of_mem_ofText {text : String} (h : ∀ c ∈ text.toList, Text.isBlank c = true) :
    ∀ b ∈ Bytes.ofText text, Text.isBetween b = true := by
  intro b hb
  rw [Bytes.ofText_eq, List.mem_flatMap] at hb
  obtain ⟨c, hc, hb⟩ := hb
  exact Text.isBetween_of_isBlank (h c hc) b hb

/-- A key has enough characters to look like the beginning of a structure. -/
theorem exists_encode (kek : Key128) :
    ∃ a n b m c rest, Base64.encode kek.bytes = a :: n :: b :: m :: c :: rest := by
  have hlength := Base64.length_encode kek.bytes
  rw [kek.length_eq] at hlength
  match hchars : Base64.encode kek.bytes with
  | a :: n :: b :: m :: c :: rest => exact ⟨a, n, b, m, c, rest, rfl⟩
  | [] | [_] | [_, _] | [_, _, _] | [_, _, _, _] =>
      rw [hchars] at hlength
      cases hlength

/-- The text of a key-encryption key is no public key, whatever stands in front of it. -/
theorem isText_of_isKekText (h : IsKekText kek data) : Key.IsText data := by
  obtain ⟨front, back, hfront, hback, rfl⟩ := h
  have hfront' := isBetween_of_mem_ofText hfront
  have hback' := isBetween_of_mem_ofText hback
  have hchars := @Base64.isPlain_of_mem_encode kek.bytes
  constructor
  · rw [List.mem_append, List.mem_append, not_or, not_or]
    exact ⟨⟨fun h => absurd (hfront' 45 h) (by decide), fun h => absurd (hchars 45 h) (by decide)⟩,
      fun h => absurd (hback' 45 h) (by decide)⟩
  · intro r hstart
    cases hbytes : Bytes.ofText front with
    | nil =>
        obtain ⟨a, n, b, m, c, rest, hencode⟩ := exists_encode kek
        rw [hencode] at hchars
        simp only [List.forall_mem_cons] at hchars
        obtain ⟨-, hn, hb, hm, hc, -⟩ := hchars
        rw [hbytes, hencode, List.nil_append] at hstart
        obtain ⟨-, rfl⟩ := List.cons.inj hstart
        exact ⟨n, b, m, c, _, rfl, hn, hb, hm, hc⟩
    | cons b bytes =>
        rw [hbytes] at hstart hfront'
        obtain ⟨rfl, -⟩ := List.cons.inj hstart
        exact absurd (hfront' _ List.mem_cons_self) (by decide)

theorem isBlank_of_isPlain {b : UInt8} (h : isPlain b = true) :
    Text.isBlank (Char.ofNat b.toNat) = false := by
  have hall : ∀ i : Fin 128, isPlain (UInt8.ofNat i.val) = true →
      Text.isBlank (Char.ofNat i.val) = false := by decide
  have hb := hall ⟨b.toNat, (Pem.isPlain_spec h).1⟩
  rw [UInt8.ofNat_toNat] at hb
  exact hb h

theorem parseKek_of_isKekText (h : IsKekText kek data) : parseKek data = .ok kek := by
  obtain ⟨front, back, hfront, hback, rfl⟩ := h
  have hplain := @Base64.isPlain_of_mem_encode kek.bytes
  have hchars := Bytes.ofText_ascii fun b hb => (Pem.isPlain_spec (hplain b hb)).1
  have hvisible : ∀ c ∈ (Bytes.ascii (Base64.encode kek.bytes)).toList, Text.isBlank c = false := by
    intro c hc
    rw [Bytes.ascii, String.toList_ofList, List.mem_map] at hc
    obtain ⟨b, hb, rfl⟩ := hc
    exact isBlank_of_isPlain (hplain b hb)
  have htext : Bytes.ofText front ++ Base64.encode kek.bytes ++ Bytes.ofText back =
      Bytes.ofText (front ++ Bytes.ascii (Base64.encode kek.bytes) ++ back) := by
    rw [Bytes.ofText_append, Bytes.ofText_append, hchars]
  have htrim : Text.trim (front ++ Bytes.ascii (Base64.encode kek.bytes) ++ back) =
      Bytes.ascii (Base64.encode kek.bytes) :=
    Text.trim_append hfront hback (fun c hc => hvisible c (List.mem_of_mem_head? hc))
      fun c hc => hvisible c (List.mem_of_mem_getLast? hc)
  rw [parseKek, htext, Bytes.toText?_ofText]
  dsimp only
  rw [htrim, hchars, Base64.decode?_encode]
  dsimp only
  rw [Key128.ofBytes?_bytes]
  rfl

theorem parse_of_isKekText (h : IsKekText kek data) : WrapKey.parse data = .ok (.kek kek) := by
  rw [WrapKey.parse, Key.parseRsaPublic_of_isText (isText_of_isKekText h)]
  dsimp only
  rw [parseKek_of_isKekText h]
  rfl

/-! ## Wrapping -/

/-- With the text of a key-encryption key, every secret is wrapped for that key. -/
theorem exists_wrap_of_isKekText (h : IsKekText kek data) (secret : Key128)
    (source : RandomSource) :
    ∃ t, Yields (wrap data secret) source t source ∧ t.tag = Tlv.encKekTag ∧ t.data.length = 24 ∧
      (UnwrapKey.kek kek).unwrap t = .ok secret := by
  obtain ⟨t, ht⟩ := exists_wrap_kek kek secret source
  obtain ⟨htag, -, hlength⟩ := shape_of_wrap ht
  have hrestores : (UnwrapKey.kek kek).Restores := trivial
  exact ⟨t, yields_wrap_of_parse (parse_of_isKekText h) ht, htag, hlength,
    unwrap_of_wrap hrestores ht⟩

/-- With a file of an RSA key of 2048 bits, every secret is wrapped for its private half. -/
theorem exists_wrap_of_rsaSize {key : Crypto.Rsa.PublicKey}
    (hparse : Key.parseRsaPublic data = .ok key) (hsize : key.size = rsaSize) (secret : Key128)
    (source : RandomSource) :
    ∃ t source', Yields (wrap data secret) source t source' ∧
      t.tag = Tlv.encRsaTag ∧ t.data.length = 256 ∧
      ∀ privateKey : Crypto.Rsa.PrivateKey, privateKey.toPublic = key →
        (UnwrapKey.rsa privateKey).Restores → (UnwrapKey.rsa privateKey).unwrap t = .ok secret := by
  have hkey : WrapKey.parse data = .ok (.rsa key) := by
    rw [WrapKey.parse, hparse]
    exact if_pos hsize
  have hroom : 82 ≤ key.size := by
    rw [hsize]
    decide
  obtain ⟨t, ht⟩ := exists_wrap_rsa hroom secret source
  obtain ⟨htag, -, hlength⟩ := shape_of_wrap ht
  refine ⟨t, _, yields_wrap_of_parse hkey ht, htag, hlength.trans hsize, ?_⟩
  rintro privateKey rfl hrestores
  exact unwrap_of_wrap hrestores ht

/-! ## Every kind -/

/-- Texts of a key-encryption key are never taken for another key; they and the files with an RSA
key of 2048 bits wrap every secret in a value of their own kind and size, which the matching key
unwraps.  A value of the other kind, of no kind, or of another size is refused, and so are bytes in
it that have not the size of a secret; what is unwrapped otherwise are the bytes in it. -/
theorem wrap_unwrap_by_kind :
    (∀ kek data, IsKekText kek data →
      (∀ key, Key.parseRsaPublic data ≠ .ok key) ∧ parseKek data = .ok kek ∧
      ∀ secret source, ∃ t, Yields (wrap data secret) source t source ∧
        t.tag = Tlv.encKekTag ∧ t.data.length = 24 ∧
        (UnwrapKey.kek kek).unwrap t = .ok secret) ∧
    (∀ data key, Key.parseRsaPublic data = .ok key → key.size = rsaSize →
      ∀ secret source, ∃ t source', Yields (wrap data secret) source t source' ∧
        t.tag = Tlv.encRsaTag ∧ t.data.length = 256 ∧
        ∀ privateKey : Crypto.Rsa.PrivateKey, privateKey.toPublic = key →
          (UnwrapKey.rsa privateKey).Restores → (UnwrapKey.rsa privateKey).unwrap t = .ok secret) ∧
    ∀ (key : UnwrapKey) (t : Tlv),
      (Tlv.isSecret t.tag = true → t.tag ≠ key.wrapKey.tag →
        key.unwrap t = .error (.keyMismatch t.tag)) ∧
      (t.tag ≠ Tlv.encRsaTag → t.tag ≠ Tlv.encKekTag → key.unwrap t = .error (.notSecret t.tag)) ∧
      (t.tag = key.wrapKey.tag → t.data.length ≠ key.wrapKey.wrappedSize →
        key.unwrap t = .error (.wrappedSize t.data.length key.wrapKey.wrappedSize)) ∧
      (∀ bytes, key.open t = .ok bytes → bytes.length ≠ 16 →
        key.unwrap t = .error (.secretSize bytes.length)) ∧
      ∀ secret, key.unwrap t = .ok secret →
        key.open t = .ok secret.bytes ∧ secret.bytes.length = 16 := by
  refine ⟨fun kek data htext => ⟨fun key => ?_, ?_, fun secret source => ?_⟩,
    fun data key hparse hsize secret source => ?_,
    fun key t => ⟨fun hsecret htag => ?_, fun hrsa hkek => ?_, fun htag hlength => ?_,
      fun bytes hopen hlength => ?_, fun secret h => ?_⟩⟩
  · rw [Key.parseRsaPublic_of_isText (isText_of_isKekText htext)]
    exact nofun
  · exact parseKek_of_isKekText htext
  · exact exists_wrap_of_isKekText htext secret source
  · exact exists_wrap_of_rsaSize hparse hsize secret source
  · exact unwrap_of_other_kind hsecret htag
  · exact unwrap_of_no_kind (by simp [Tlv.isSecret, hrsa, hkek])
  · exact unwrap_of_other_size htag hlength
  · exact unwrap_of_secretSize hopen hlength
  · exact ⟨unwrap_eq_ok_iff.mp h, secret.length_eq⟩

namespace ByKind

open Crypto.Rsa (primeKey)

/-- A key whose characters start with the digit zero, the tag of a structure. -/
def digitKek : Key128 where
  bytes := 0xd3 :: List.replicate 15 0x4d
  length_eq := rfl

/-- The text of the key in a file with two line ends, and a blank beyond ASCII at its end. -/
def text : Bytes :=
  Bytes.ofText (String.ofList []) ++ Base64.encode digitKek.bytes ++
    Bytes.ofText (String.ofList ['\r', '\n', Char.ofNat 0x3000, '\n'])

theorem isKekText_text : IsKekText digitKek text := by
  refine ⟨_, _, ?_, ?_, rfl⟩
  · rw [String.toList_ofList]
    exact nofun
  · rw [String.toList_ofList]
    exact List.all_eq_true.mp rfl

theorem head?_text : text.head? = some Der.sequenceTag := by
  rw [text, Bytes.ofText_eq, String.toList_ofList]
  rfl

/-- A file with an RSA public key. -/
def file : Bytes := (Key.PublicKeyInfo.ofKey (.rsa primeKey.toPublic)).toBytes

set_option maxRecDepth 100000 in
theorem parse_file : Key.parseRsaPublic file = .ok primeKey.toPublic := by decide +kernel

theorem restores : (UnwrapKey.rsa primeKey).Restores :=
  restores_rsa Crypto.Rsa.hasPrimes_primeKey

end ByKind

open ByKind in
open Crypto.Rsa (primeKey) in
/-- A secret wrapped with either key is unwrapped by the matching one, and not by the other. -/
theorem wrap_unwrap_by_kind_digit :
    text.head? = some Der.sequenceTag ∧ IsKekText digitKek text ∧
    parseKek text = .ok digitKek ∧
    (∃ t, Yields (wrap text digitKek) (.cycle [42]) t (.cycle [42]) ∧
      (UnwrapKey.kek digitKek).unwrap t = .ok digitKek ∧
      (UnwrapKey.rsa primeKey).unwrap t = .error (.keyMismatch Tlv.encKekTag)) ∧
    ∃ t source, Yields (wrap file digitKek) (.cycle [42]) t source ∧
      (UnwrapKey.rsa primeKey).unwrap t = .ok digitKek ∧
      (UnwrapKey.kek digitKek).unwrap t = .error (.keyMismatch Tlv.encRsaTag) := by
  obtain ⟨hkek, hrsa, herrors⟩ := wrap_unwrap_by_kind
  obtain ⟨-, hparse, hwrap⟩ := hkek digitKek text isKekText_text
  obtain ⟨t, ht, htag, -, hunwrap⟩ := hwrap digitKek (.cycle [42])
  obtain ⟨t', source', ht', htag', -, hunwrap'⟩ :=
    hrsa file primeKey.toPublic parse_file Crypto.Rsa.size_primeKey digitKek (.cycle [42])
  refine ⟨head?_text, isKekText_text, hparse, ⟨t, ht, hunwrap, ?_⟩,
    t', source', ht', hunwrap' primeKey rfl restores, ?_⟩
  · rw [← htag]
    refine (herrors (.rsa primeKey) t).1 ?_ ?_
    · rw [htag]
      rfl
    · rw [htag]
      show Tlv.encKekTag ≠ Tlv.encRsaTag
      decide
  · rw [← htag']
    refine (herrors (.kek digitKek) t').1 ?_ ?_
    · rw [htag']
      rfl
    · rw [htag']
      show Tlv.encRsaTag ≠ Tlv.encKekTag
      decide

end Firmware.Secret
