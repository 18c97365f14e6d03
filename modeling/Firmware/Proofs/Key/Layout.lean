import Firmware.Proofs.Key.PrivateKey

/-!
# Keys do not depend on the layout of their text

`parse_of_isLayout` : the blocks that are read from a text are those that were written in it, so the
layout has no part in what key is read, or in why none is.  Reading a private key skips blocks of
curve parameters, so these may be added anywhere.

A block that is added is never the reason for an error, and leaves no key behind.  `Inserted` says
how a list comes to have further entries; it is kept by every step of reading, first with the
parameters as blocks to be decoded, then as decoded ones, then as keys that are missing.
-/

namespace Firmware.Key

open Pem (Framed IsLayout)

variable {text text' : Bytes} {blocks blocks' : List Framed} {source : Passphrase}

/-! ## Further entries -/

/-- The second list is the first one with further entries that have a property. -/
inductive Inserted {α : Type} (P : α → Prop) : List α → List α → Prop
  | nil : Inserted P [] []
  | keep {a : α} {as as' : List α} : Inserted P as as' → Inserted P (a :: as) (a :: as')
  | insert {a : α} {as as' : List α} : P a → Inserted P as as' → Inserted P as (a :: as')

theorem Inserted.ne_nil {α : Type} {P : α → Prop} {as as' : List α} (h : Inserted P as as')
    (hne : as ≠ []) : as' ≠ [] := by
  cases h with
  | nil => exact absurd rfl hne
  | keep _ => exact List.cons_ne_nil _ _
  | insert _ _ => exact List.cons_ne_nil _ _

/-- A loop over the longer list fails if the one over the shorter list does, with the same error, as
long as it does not fail for the entries that were added. -/
theorem Inserted.mapM {ε α β : Type} {P : α → Prop} {Q : β → Prop} {f : α → Except ε β}
    (hf : ∀ a, P a → ∃ b, f a = .ok b ∧ Q b) {as as' : List α} (h : Inserted P as as') :
    (∃ e, as.mapM f = .error e ∧ as'.mapM f = .error e) ∨
      ∃ bs bs', as.mapM f = .ok bs ∧ as'.mapM f = .ok bs' ∧ Inserted Q bs bs' := by
  induction h with
  | nil => exact .inr ⟨[], [], rfl, rfl, .nil⟩
  | @keep a as as' _ ih =>
      rw [List.mapM_cons, List.mapM_cons]
      cases ha : f a with
      | error e => exact .inl ⟨e, rfl, rfl⟩
      | ok b =>
          rcases ih with ⟨e, he, he'⟩ | ⟨bs, bs', hbs, hbs', hinserted⟩
          · rw [he, he']
            exact .inl ⟨e, rfl, rfl⟩
          · rw [hbs, hbs']
            exact .inr ⟨b :: bs, b :: bs', rfl, rfl, .keep hinserted⟩
  | @insert a as as' ha _ ih =>
      obtain ⟨b, hb, hQ⟩ := hf a ha
      rw [List.mapM_cons, hb]
      rcases ih with ⟨e, he, he'⟩ | ⟨bs, bs', hbs, hbs', hinserted⟩
      · rw [he, he']
        exact .inl ⟨e, rfl, rfl⟩
      · rw [hbs, hbs']
        exact .inr ⟨bs, b :: bs', rfl, rfl, .insert hQ hinserted⟩

theorem Inserted.reduceOption_eq {α : Type} {as as' : List (Option α)}
    (h : Inserted (· = none) as as') : as'.reduceOption = as.reduceOption := by
  induction h with
  | nil => rfl
  | @keep a _ _ _ ih =>
      cases a with
      | none => rwa [List.reduceOption_cons_of_none, List.reduceOption_cons_of_none]
      | some a => rw [List.reduceOption_cons_of_some, List.reduceOption_cons_of_some, ih]
  | insert ha _ ih =>
      subst ha
      rwa [List.reduceOption_cons_of_none]

/-! ## Curve parameters -/

/-- The label of a block of curve parameters, `EC PARAMETERS`. -/
def parametersLabel : Bytes := [69, 67, 32, 80, 65, 82, 65, 77, 69, 84, 69, 82, 83]

/-- A block of curve parameters that can be decoded, to whatever content. -/
def IsParameters (b : Framed) : Prop :=
  b.label = parametersLabel ∧ ∃ content, Base64.decode? b.chars = some content

theorem decode_of_isParameters {b : Framed} (h : IsParameters b) :
    ∃ block, b.decode = .ok block ∧ block.label = "EC PARAMETERS" := by
  obtain ⟨hlabel, content, hcontent⟩ := h
  have hfits : Pem.Fits b.label := by
    rw [hlabel]
    exact ⟨by decide, by decide⟩
  refine ⟨_, Pem.decode_of_fits hfits hcontent, ?_⟩
  rw [hlabel]
  rfl

theorem blockKeyOf_parameters {block : Pem.Block} (h : block.label = "EC PARAMETERS") :
    ∃ key, blockKeyOf source block = .ok key ∧ key = none := by
  unfold blockKeyOf
  rw [h]
  exact ⟨none, rfl, rfl⟩

/-! ## Reading -/

theorem parse_of_blocksOf {decoded : List Pem.Block} (harmoured : Pem.isArmoured text = true)
    (h : blocksOf text = .ok decoded) : SigningKey.parse text source =
      decoded.mapM (blockKeyOf source) >>= fun keys => single .unrecognized keys.reduceOption := by
  rw [SigningKey.parse, if_pos harmoured, h]
  rfl

/-- Armoured texts in which the same blocks are found have the same keys in them. -/
theorem parse_congr (harmoured : Pem.isArmoured text = true)
    (harmoured' : Pem.isArmoured text' = true) (h : Pem.decodeAll text = Pem.decodeAll text') :
    SigningKey.parse text source = SigningKey.parse text' source ∧
      PublicKey.parse text = PublicKey.parse text' := by
  have hblocks : blocksOf text = blocksOf text' := by rw [blocksOf, blocksOf, h]
  constructor
  · rw [SigningKey.parse, SigningKey.parse, if_pos harmoured, if_pos harmoured', hblocks]
  · rw [PublicKey.parse, PublicKey.parse, if_pos harmoured, if_pos harmoured', hblocks]

/-- Curve parameters have no part in what private key is read. -/
theorem parse_of_inserted (hne : blocks ≠ []) (h : IsLayout blocks text)
    (hinserted : Inserted IsParameters blocks blocks') (h' : IsLayout blocks' text') :
    SigningKey.parse text' source = SigningKey.parse text source := by
  have harmoured := Pem.isArmoured_of_isLayout hne h
  have harmoured' := Pem.isArmoured_of_isLayout (hinserted.ne_nil hne) h'
  have hread := Pem.decodeAll_of_isLayout h
  have hread' := Pem.decodeAll_of_isLayout h'
  rcases hinserted.mapM fun b hb => decode_of_isParameters hb with
    ⟨e, he, he'⟩ | ⟨decoded, decoded', hdecoded, hdecoded', hinserted⟩
  · refine (parse_congr harmoured' harmoured ?_).1
    rw [hread, hread', he, he']
  · rw [hdecoded] at hread
    rw [hdecoded'] at hread'
    rw [parse_of_blocksOf harmoured (blocksOf_eq_ok_iff.mpr hread),
      parse_of_blocksOf harmoured' (blocksOf_eq_ok_iff.mpr hread')]
    rcases hinserted.mapM fun block hblock => blockKeyOf_parameters hblock with
      ⟨e, he, he'⟩ | ⟨keys, keys', hkeys, hkeys', hinserted⟩
    · rw [he, he']
    · rw [hkeys, hkeys']
      show single _ keys'.reduceOption = single _ keys.reduceOption
      rw [hinserted.reduceOption_eq]

/-- The blocks in a text are found in every layout, each with its characters in lines of the full
width.  So two layouts of the same blocks have the same keys in them, and further curve parameters
make no difference to a private key. -/
theorem parse_of_isLayout :
    (∀ blocks text, IsLayout blocks text →
      Pem.split text = .ok (blocks.map Framed.text) ∧
      Pem.decodeAll text = blocks.mapM Framed.decode) ∧
    (∀ blocks text text', blocks ≠ [] → IsLayout blocks text → IsLayout blocks text' →
      (∀ source, SigningKey.parse text source = SigningKey.parse text' source) ∧
      PublicKey.parse text = PublicKey.parse text') ∧
    ∀ blocks blocks' text text', blocks ≠ [] → IsLayout blocks text →
      Inserted IsParameters blocks blocks' → IsLayout blocks' text' →
        ∀ source, SigningKey.parse text' source = SigningKey.parse text source := by
  refine ⟨fun blocks text h => ⟨?_, ?_⟩, fun blocks text text' hne h h' => ?_,
    fun blocks blocks' text text' hne h hinserted h' source => ?_⟩
  · exact Pem.split_of_isLayout h
  · exact Pem.decodeAll_of_isLayout h
  · have hsame : Pem.decodeAll text = Pem.decodeAll text' := by
      rw [Pem.decodeAll_of_isLayout h, Pem.decodeAll_of_isLayout h']
    have hparse (source : Passphrase) := @parse_congr text text' source
      (Pem.isArmoured_of_isLayout hne h) (Pem.isArmoured_of_isLayout hne h') hsame
    exact ⟨fun source => (hparse source).1, (hparse .silent).2⟩
  · exact parse_of_inserted hne h hinserted h'

/-! ### An untidy text -/

namespace Untidy

/-- The structure of the Ed25519 key with the given seed. -/
def der : Bytes :=
  [0x30, 0x2e, 2, 1, 0, 0x30, 5, 6, 3, 0x2b, 0x65, 0x70, 4, 0x22, 4, 0x20] ++ List.replicate 32 7

def keyLabel : Bytes := [80, 82, 73, 86, 65, 84, 69, 32, 75, 69, 89]

theorem fits_keyLabel : Pem.Fits keyLabel := ⟨by decide, by decide⟩

def keyBlock : Framed :=
  .ofContent keyLabel der (Pem.oneLine_of_fits fits_keyLabel) (List.cons_ne_nil _ _)

/-- The name of a curve as curve parameters. -/
def parameters : Framed :=
  .ofContent parametersLabel (Der.oid EcCurve.p256.oid).toBytes (by decide) (List.cons_ne_nil _ _)

/-- A comment, the key with line ends of two characters and blanks, its characters in pieces of ten
and of the rest with a blank line between them, and one more blank line. -/
def lines : List Bytes :=
  [[35, 32, 107, 101, 121], [32, 32] ++ Pem.opening keyLabel ++ [13],
    keyBlock.chars.take 10 ++ [13], [9], [9] ++ keyBlock.chars.drop 10 ++ [32, 13],
    Pem.closing keyLabel ++ [13], []]

theorem laidOut_lines : Pem.LaidOut [keyBlock] lines := by
  have hcomment : Pem.IsOutside [35, 32, 107, 101, 121] :=
    Pem.isOutside_of_head? (by decide) (by decide)
  have hblank : Pem.IsOutside [] := Pem.isOutside_of_head? (by decide) (by decide)
  have hcut : Pem.Cut keyBlock.chars
      [keyBlock.chars.take 10 ++ [13], [9], [9] ++ keyBlock.chars.drop 10 ++ [32, 13]] := by
    refine ⟨[keyBlock.chars.take 10, [], keyBlock.chars.drop 10], ?_, ?_⟩
    · simp only [List.flatten_cons, List.flatten_nil, List.nil_append, List.append_nil,
        List.take_append_drop]
    · exact .cons ⟨[], [13], rfl, rfl, rfl⟩ (.cons ⟨[9], [], rfl, rfl, rfl⟩
        (.cons ⟨[9], [32, 13], rfl, rfl, rfl⟩ .nil))
  exact .outside hcomment (.block ⟨[32, 32], [13], rfl, rfl, rfl⟩ hcut
    ⟨[], [13], rfl, rfl, rfl⟩ (.outside hblank .done))

/-- The lines in a file. -/
def file : Bytes := lines.flatMap (· ++ [10])

/-- The file with curve parameters in front. -/
def longFile : Bytes :=
  (Pem.blockLines parameters.label parameters.chars ++ lines).flatMap (· ++ [10])

theorem isLayout_file : IsLayout [keyBlock] file := ⟨lines, laidOut_lines, .inl rfl⟩

theorem isLayout_longFile : IsLayout [parameters, keyBlock] longFile :=
  ⟨_, (Pem.laidOut_blockLines parameters).append laidOut_lines, .inl rfl⟩

theorem isParameters_parameters : IsParameters parameters :=
  ⟨rfl, _, Base64.decode?_encode _⟩

/-- The key is the one in the text that is written for the structure. -/
theorem parse_written :
    SigningKey.parse (Bytes.ofText (Pem.encode ⟨"PRIVATE KEY", der⟩)) .silent =
      .ok (.ed25519 (List.replicate 32 7)) := by
  have hkey : pkcs8Of der = .ok (.ed25519 (List.replicate 32 7)) := by decide +kernel
  exact parse_encode rfl fits_keyLabel (List.cons_ne_nil _ _) (blockKeyOf_plain hkey)

theorem isLayout_written :
    IsLayout [keyBlock] (Bytes.ofText (Pem.encode ⟨"PRIVATE KEY", der⟩)) :=
  Pem.isLayout_encode fits_keyLabel (List.cons_ne_nil _ _)

end Untidy

open Untidy in
/-- The block is found in the untidy file in its written form, and the key in it is the same with
curve parameters and without. -/
theorem parse_of_isLayout_untidy :
    Pem.split file = .ok [keyBlock.text] ∧
    SigningKey.parse file .silent = .ok (.ed25519 (List.replicate 32 7)) ∧
    SigningKey.parse longFile .silent = .ok (.ed25519 (List.replicate 32 7)) := by
  obtain ⟨hsplit, hsame, hlonger⟩ := parse_of_isLayout
  have hne : [keyBlock] ≠ [] := List.cons_ne_nil _ _
  have hfile := (hsame _ _ _ hne isLayout_file isLayout_written).1 .silent
  have hlong := hlonger _ _ _ _ hne isLayout_file (.insert isParameters_parameters (.keep .nil))
    isLayout_longFile .silent
  rw [parse_written] at hfile
  rw [hfile] at hlong
  exact ⟨(hsplit _ _ isLayout_file).1, hfile, hlong⟩

end Firmware.Key
