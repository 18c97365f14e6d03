import Firmware.Proofs.Build
import Firmware.Proofs.Image.Decrypt
import Firmware.Proofs.Image.Format
import Firmware.Proofs.Image.Grammar

/-!
# What decryption leaves alone

`decrypt_frame` : a decrypted image differs from the encrypted one in the encryption flag, in the
bytes of its body and in its wrapped secret, which is gone; and decryption fails only where one of
these is not as it should be.  This is said of every image that a file may hold, not only of built
ones, so the secret may stand anywhere in the area.

In an area that keeps the rules it can only stand at the end, where no other rule looks at it: it is
no key hash, it signs nothing, and no signature is preceded by it.  Taking it away therefore breaks
no rule (`violations_of_append_secret`).  As a body of the same length takes the place of the old
one, the sizes in the header stay right, and the file gets shorter by the secret.
-/

namespace Firmware.Image

variable {img d : Image} {key : Secret.UnwrapKey} {tlvs front back : List Tlv} {t : Tlv}

/-! ## The one wrapped secret -/

/-- The wrapped secrets of an area. -/
def secrets (tlvs : List Tlv) : List Tlv := tlvs.filter fun t => Tlv.isSecret t.tag

/-- A wrapped secret stands between values that are none. -/
structure OnlySecret (front : List Tlv) (t : Tlv) (back : List Tlv) : Prop where
  isSecret : Tlv.isSecret t.tag = true
  others : ∀ u ∈ front ++ back, Tlv.isSecret u.tag = false

theorem secrets_eq_singleton_iff :
    secrets tlvs = [t] ↔ ∃ front back, tlvs = front ++ t :: back ∧ OnlySecret front t back := by
  unfold secrets
  rw [List.filter_eq_cons_iff]
  constructor
  · rintro ⟨front, back, rfl, hfront, hsecret, hback⟩
    rw [List.filter_eq_nil_iff] at hback
    refine ⟨front, back, rfl, hsecret, fun u hu => eq_false_of_ne_true ?_⟩
    rcases List.mem_append.mp hu with hu | hu
    · exact hfront u hu
    · exact hback u hu
  · rintro ⟨front, back, rfl, hsecret, hothers⟩
    refine ⟨front, back, rfl, fun u hu => ?_, hsecret, List.filter_eq_nil_iff.mpr fun u hu => ?_⟩
    · exact ne_true_of_eq_false (hothers u (List.mem_append_left back hu))
    · exact ne_true_of_eq_false (hothers u (List.mem_append_right front hu))

/-- Without the wrapped secrets, everything else is left in its order. -/
theorem OnlySecret.filter_not_isSecret (h : OnlySecret front t back) :
    (front ++ t :: back).filter (fun u => !Tlv.isSecret u.tag) = front ++ back := by
  have hkept : (front ++ back).filter (fun u => !Tlv.isSecret u.tag) = front ++ back := by
    rw [List.filter_eq_self]
    intro u hu
    rw [h.others u hu]
    rfl
  have hgone : (t :: back).filter (fun u => !Tlv.isSecret u.tag) =
      back.filter (fun u => !Tlv.isSecret u.tag) := by
    refine List.filter_cons_of_neg ?_
    rw [h.isSecret]
    exact Bool.false_ne_true
  rw [List.filter_append, hgone, ← List.filter_append, hkept]

theorem wrappedSecret_eq_ok_iff : img.wrappedSecret = .ok t ↔ secrets img.tlvs = [t] := by
  unfold wrappedSecret secrets
  split
  · rename_i u hfilter
    rw [hfilter]
    constructor
    · intro h
      rw [Except.ok.inj h]
    · intro h
      rw [(List.cons.inj h).1]
  · rename_i hother
    exact ⟨nofun, fun h => absurd h (hother t)⟩

theorem wrappedSecret_eq_error_iff {e : Secret.Error} :
    img.wrappedSecret = .error e ↔
      (secrets img.tlvs).length ≠ 1 ∧ .secretCount (secrets img.tlvs).length = e := by
  unfold wrappedSecret secrets
  split
  · rename_i u hfilter
    rw [hfilter]
    exact ⟨nofun, fun h => absurd rfl h.1⟩
  · rename_i hother
    rw [Except.error.injEq]
    refine (and_iff_right fun hone => ?_).symm
    obtain ⟨u, hu⟩ := List.length_eq_one_iff.mp hone
    exact hother u hu

/-! ## The rules on the area -/

/-- Blocks are left when the wrapped secret behind them is taken away. -/
theorem Blocks.of_append_secret {rest : List Tlv} (ht : Tlv.isSecret t.tag = true)
    (h : Blocks (rest ++ [t])) : Blocks rest := by
  obtain ⟨blocks, secret, heq, hblocks, -⟩ := h
  cases secret with
  | none =>
      -- The secret would stand in one of the blocks, and these hold none.
      rw [Option.toList_none, List.append_nil] at heq
      have hmem : t ∈ blocks.flatten := heq ▸ List.mem_append_right rest (List.mem_singleton_self t)
      obtain ⟨b, hb, htb⟩ := List.mem_flatten.mp hmem
      rw [(hblocks b hb).isSecret_eq_false t htb] at ht
      cases ht
  | some last =>
      obtain ⟨rfl, -⟩ := List.append_inj' heq rfl
      exact ⟨blocks, none, (List.append_nil _).symm, hblocks, nofun⟩

/-- A wrapped secret in an area that keeps the rules is its last value. -/
theorem eq_nil_of_violations (ht : Tlv.isSecret t.tag = true)
    (h : violations (front ++ t :: back) = []) : back = [] := by
  unfold violations at h
  have hlast := secretViolations_eq_nil_iff.mp (List.append_eq_nil_iff.mp h).2
  rcases List.eq_nil_or_concat' back with rfl | ⟨before, last, rfl⟩
  · rfl
  · have hinside : t ∈ (front ++ t :: (before ++ [last])).dropLast := by
      rw [← List.cons_append, ← List.append_assoc, List.dropLast_concat]
      exact List.mem_append_right front List.mem_cons_self
    rw [hlast t hinside] at ht
    cases ht

/-- Taking the wrapped secret away breaks no rule. -/
theorem violations_of_append_secret (ht : Tlv.isSecret t.tag = true)
    (h : violations (front ++ [t]) = []) : violations front = [] := by
  unfold violations at h ⊢
  rw [List.append_eq_nil_iff, List.append_eq_nil_iff, List.append_eq_nil_iff,
    duplicateViolations_eq_nil_iff] at h ⊢
  obtain ⟨⟨⟨hhead, hpairs⟩, hdistinct⟩, hsecrets⟩ := h
  cases front with
  | nil =>
      -- The first value is the content hash.
      have hother := (Tlv.tags_of_isSecret ht).2
      rw [List.nil_append, headViolations, if_neg hother] at hhead
      cases hhead
  | cons hash rest =>
      obtain ⟨htag, hblocks⟩ := (shape_iff hash (rest ++ [t])).mp ⟨hhead, hpairs, hsecrets⟩
      obtain ⟨hhead', hpairs', hsecrets'⟩ :=
        (shape_iff hash rest).mpr ⟨htag, hblocks.of_append_secret ht⟩
      have hsublist : (keyHashes (hash :: rest)).Sublist (keyHashes (hash :: rest ++ [t])) :=
        ((List.sublist_append_left _ _).filter _).map _
      exact ⟨⟨⟨hhead', hpairs'⟩, hdistinct.sublist hsublist⟩, hsecrets'⟩

/-! ## The header -/

/-- One bit of the flags is cleared, and all others are kept, with or without a name. -/
theorem Header.testBit_decrypted (h : Header) (i : Nat) :
    h.decrypted.flags.toNat.testBit i =
      (h.flags.toNat.testBit i && !flagEncrypted.toNat.testBit i) := by
  show (h.flags &&& ~~~flagEncrypted).toBitVec.toNat.testBit i = _
  rw [UInt32.toBitVec_and, UInt32.toBitVec_not, BitVec.testBit_toNat, BitVec.getLsbD_and,
    BitVec.getLsbD_not, ← BitVec.testBit_toNat, ← BitVec.testBit_toNat, UInt32.toNat_toBitVec,
    UInt32.toNat_toBitVec]
  cases hbit : h.flags.toNat.testBit i with
  | false => rfl
  | true =>
      have hlt : i < 32 := by
        by_contra hge
        have hsmall : h.flags.toNat < 2 ^ i :=
          Nat.lt_of_lt_of_le h.flags.toNat_lt (Nat.pow_le_pow_right (by omega) (by omega))
        rw [Nat.testBit_lt_two_pow hsmall] at hbit
        cases hbit
      rw [decide_eq_true hlt, Bool.true_and]

theorem Header.isEncrypted_decrypted (h : Header) : h.decrypted.isEncrypted = false := by
  unfold isEncrypted decrypted
  rw [UInt32.and_assoc, UInt32.not_and_self, UInt32.and_zero]
  rfl

/-! ## The file -/

theorem areaSize_append_cons (front : List Tlv) (t : Tlv) (back : List Tlv) :
    Tlv.areaSize (front ++ t :: back) = Tlv.areaSize (front ++ back) + t.size := by
  simp only [← Tlv.length_flatMap_toBytes, List.flatMap_append, List.flatMap_cons,
    List.length_append, Tlv.length_toBytes]
  omega

/-- A file is left when one value is taken away and the body is replaced by one of the same length,
whatever the flags say now. -/
theorem Denotes.exists_shorter {data : Bytes} (h : Denotes img data)
    (htlvs : img.tlvs = front ++ t :: back) (flags : UInt32) {body : Bytes}
    (hbody : body.length = img.body.length) :
    ∃ data', Denotes ⟨{ img.header with flags }, img.pad, body, front ++ back⟩ data' ∧
      data'.length + t.size = data.length := by
  have harea := areaSize_append_cons front t back
  rw [← htlvs] at harea
  have hfit : TlvsFit (front ++ back) := by
    have hold := h.tlvs
    unfold TlvsFit at hold ⊢
    omega
  have hcontent : Content.Fits img.header.headerSize img.header.bodySize img.pad body :=
    ⟨h.content.length_pad, hbody.trans h.content.length_body⟩
  have hdenotes : Denotes ⟨{ img.header with flags }, img.pad, body, front ++ back⟩ _ :=
    ⟨hcontent, hfit, rfl⟩
  refine ⟨_, hdenotes, ?_⟩
  rw [hdenotes.length_eq, h.length_eq]
  simp only [totalSize, tlvTotalSize]
  omega

/-! ## Errors -/

theorem decryptedBody_eq_error_iff {e : Secret.Error} :
    img.decryptedBody key = .error e ↔
      (img.header.isEncrypted = false ∧ .notEncrypted = e) ∨
      (img.header.isEncrypted = true ∧
        (img.wrappedSecret = .error e ∨
          ∃ t, img.wrappedSecret = .ok t ∧ key.unwrap t = .error e)) := by
  unfold decryptedBody
  cases img.header.isEncrypted with
  | false =>
      rw [if_neg Bool.false_ne_true, Except.error.injEq]
      exact ⟨fun h => .inl ⟨rfl, h⟩, fun h => h.elim And.right nofun⟩
  | true =>
      rw [if_pos rfl, bind_eq_error_iff]
      constructor
      · rintro (hcount | ⟨t, ht, h⟩)
        · exact .inr ⟨rfl, .inl hcount⟩
        · rcases bind_eq_error_iff.mp h with hunwrap | ⟨_, -, h⟩
          · exact .inr ⟨rfl, .inr ⟨t, ht, hunwrap⟩⟩
          · cases h
      · rintro (⟨h, -⟩ | ⟨-, hcount | ⟨t, ht, hunwrap⟩⟩)
        · cases h
        · exact .inl hcount
        · exact .inr ⟨t, ht, bind_eq_error_iff.mpr (.inl hunwrap)⟩

theorem decrypt_eq_error_iff {e : Secret.Error} :
    img.decrypt key = .error e ↔ img.decryptedBody key = .error e := by
  unfold decrypt
  rw [bind_eq_error_iff]
  constructor
  · rintro (h | ⟨_, -, h⟩)
    · exact h
    · cases h
  · exact .inl

/-! ## All of it -/

/-- How a decrypted image `d` and the image `img` that it comes from belong together; `t` is the
wrapped secret that is taken away. -/
structure Frame (img : Image) (key : Secret.UnwrapKey) (t : Tlv) (d : Image) : Prop where
  pad : d.pad = img.pad
  header : d.header = { img.header with flags := d.header.flags }
  flags : ∀ i, d.header.flags.toNat.testBit i =
    (img.header.flags.toNat.testBit i && !flagEncrypted.toNat.testBit i)
  length_body : d.body.length = img.body.length
  body : ∃ secret, key.unwrap t = .ok secret ∧ d.body = Secret.crypt secret img.body
  tlvs : ∃ front back, img.tlvs = front ++ t :: back ∧ d.tlvs = front ++ back ∧
    OnlySecret front t back
  structured : Verify.checkStructure img = .ok () →
    img.tlvs.getLast? = some t ∧ Verify.checkStructure d = .ok ()
  written : ∀ data, img.toBytes = .ok data →
    ∃ data', d.toBytes = .ok data' ∧ data'.length + t.size = data.length
  once : ∀ other, d.decrypt other = .error .notEncrypted

theorem exists_frame (h : img.decrypt key = .ok d) : ∃ t, Frame img key t d := by
  obtain ⟨body, hbody, rfl⟩ := decrypt_eq_ok_iff.mp h
  have hlength := length_decryptedBody hbody
  obtain ⟨-, t, secret, ht, hunwrap, rfl⟩ := decryptedBody_eq_ok_iff.mp hbody
  obtain ⟨front, back, htlvs, honly⟩ := secrets_eq_singleton_iff.mp (wrappedSecret_eq_ok_iff.mp ht)
  have hkept : img.tlvs.filter (fun u => !Tlv.isSecret u.tag) = front ++ back := by
    rw [htlvs, honly.filter_not_isSecret]
  rw [hkept]
  refine ⟨t, rfl, rfl, img.header.testBit_decrypted, hlength, ⟨secret, hunwrap, rfl⟩,
    ⟨front, back, htlvs, rfl, honly⟩, ?_, ?_, ?_⟩
  · intro hstructured
    rw [Build.checkStructure_eq_ok_iff, htlvs] at hstructured
    obtain rfl := eq_nil_of_violations honly.isSecret hstructured
    rw [htlvs, List.append_nil, List.getLast?_concat, Build.checkStructure_eq_ok_iff]
    exact ⟨rfl, violations_of_append_secret honly.isSecret hstructured⟩
  · intro data hdata
    obtain ⟨data', hdenotes, hsize⟩ := (toBytes_eq_ok_iff_denotes.mp hdata).exists_shorter htlvs
      img.header.decrypted.flags hlength
    exact ⟨data', toBytes_eq_ok_iff_denotes.mpr hdenotes, hsize⟩
  · intro other
    rw [decrypt_eq_error_iff, decryptedBody_eq_error_iff]
    exact .inl ⟨img.header.isEncrypted_decrypted, rfl⟩

/-- Decryption changes the flag, the bytes of the body and the wrapped secret, and nothing else; and
it fails only if the flag is not set, if the wrapped secrets are not one, or if the key does not
unwrap the one there is. -/
theorem decrypt_frame (img : Image) (key : Secret.UnwrapKey) :
    (∀ d, img.decrypt key = .ok d → ∃ t, Frame img key t d) ∧
    ∀ e, img.decrypt key = .error e ↔
      (img.header.isEncrypted = false ∧ .notEncrypted = e) ∨
      (img.header.isEncrypted = true ∧
        (((secrets img.tlvs).length ≠ 1 ∧ .secretCount (secrets img.tlvs).length = e) ∨
          ∃ t, secrets img.tlvs = [t] ∧ key.unwrap t = .error e)) := by
  refine ⟨fun d => exists_frame, fun e => ?_⟩
  rw [decrypt_eq_error_iff, decryptedBody_eq_error_iff, wrappedSecret_eq_error_iff]
  simp only [wrappedSecret_eq_ok_iff]

/-! ## An image with flags and values that have no name -/

namespace Sealed

def kek : Key128 := ⟨List.replicate 16 4, rfl⟩

def secret : Key128 := ⟨List.replicate 16 5, rfl⟩

def wrapped : Tlv :=
  { tag := Tlv.encKekTag, data := Crypto.KeyWrap.wrap kek.bytes secret.bytes }

/-- A key hash with its signature, and a value with a tag of its own. -/
def signed : List Tlv :=
  [{ tag := Tlv.sha256Tag, data := [] }, { tag := 0xa0, pad := 7, data := [1, 2] },
    { tag := Tlv.keyHashTag, data := [3] }, { tag := Tlv.ed25519Tag, data := [4, 5] }]

def image : Image where
  header := { headerSize := 34, bodySize := 3, flags := 0xffffffff, version := ⟨1, 0, 0, 0⟩ }
  pad := [6, 7]
  body := [1, 2, 3]
  tlvs := signed ++ [wrapped]

def plain : Image where
  header := { image.header with flags := 0xfffffffb }
  pad := [6, 7]
  body := Secret.crypt secret image.body
  tlvs := signed

theorem decrypt_image : image.decrypt (.kek kek) = .ok plain := by
  have hbody : image.decryptedBody (.kek kek) = .ok (Secret.crypt secret image.body) :=
    decryptedBody_eq_ok_iff.mpr ⟨rfl, wrapped, secret, rfl, Secret.unwrap_kek kek secret, rfl⟩
  exact decrypt_eq_ok_iff.mpr ⟨_, hbody, rfl⟩

end Sealed

/-- The image keeps the rules and is written; so does and is what decryption leaves of it, and that
is not decrypted again. -/
theorem decrypt_frame_sealed :
    Sealed.image.decrypt (.kek Sealed.kek) = .ok Sealed.plain ∧
      (∃ t, Frame Sealed.image (.kek Sealed.kek) t Sealed.plain) ∧
      Verify.checkStructure Sealed.image = .ok () ∧
      Sealed.plain.decrypt (.kek Sealed.kek) = .error .notEncrypted := by
  refine ⟨Sealed.decrypt_image, (decrypt_frame _ _).1 _ Sealed.decrypt_image, ?_, ?_⟩
  · rw [Build.checkStructure_eq_ok_iff]
    decide +kernel
  · exact ((decrypt_frame _ _).2 _).mpr (.inl ⟨rfl, rfl⟩)

end Firmware.Image
