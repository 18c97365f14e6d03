import Firmware.Proofs.Build
import Firmware.Proofs.Crypto.Primality
import Firmware.Proofs.Key.Signature
import Firmware.Proofs.Legacy.Format
import Firmware.Proofs.Verify.Legacy

/-!
# Built images of the older format

`checkLegacy_build` : an image of the older format that could be built is written, read back and
found to be right, and one that must not be built is not.

The size of the values is a header field and thus part of what is hashed, so it is fixed before
there is any value.  It is computed from the size that the key promises for its signatures, and the
builder refuses a signature of another size; so what was declared is what is there
(`LegacyBuilds.tlvSize_eq`).

The padding of an RSA signature is told by nothing but a flag.  The check looks at one of the two
flags only, which suffices because the other bits of the field are set by other rules
(`legacyPadding_flags`).
-/

namespace Firmware.Build

open Key (SigningKey)

variable {p : LegacyPlan} {img : Legacy} {hash : Bytes} {key : Option SigningKey}
  {signatures : List Tlv}

/-! ## The steps -/

theorem key?_eq_ok_iff : p.key? = .ok key ↔ p.keys = key.toList := by
  unfold LegacyPlan.key?
  rcases p.keys with _ | ⟨k, _ | ⟨k', keys⟩⟩
  · cases key with
    | none => exact ⟨fun _ => rfl, fun _ => rfl⟩
    | some key => exact ⟨nofun, nofun⟩
  · cases key with
    | none => exact ⟨nofun, nofun⟩
    | some key =>
        constructor
        · intro h
          cases h
          rfl
        · intro h
          cases h
          rfl
  · cases key with
    | none => exact ⟨nofun, nofun⟩
    | some key => exact ⟨nofun, nofun⟩

/-- The size of the values as it is known before there are any. -/
def promisedSize (key : Option SigningKey) : Nat :=
  Tlv.sizeFor Content.hashLength + key.elim 0 fun key => Tlv.sizeFor key.signatureSize

theorem toNat_of_tlvSize {size : UInt16} (h : LegacyPlan.tlvSize key = .ok size) :
    size.toNat = promisedSize key := by
  obtain ⟨hfits, h⟩ := then_eq_ok_iff.mp h
  obtain rfl := Except.ok.inj h
  exact UInt16.toNat_ofNat_of_lt' hfits

/-- A signature of a hash, made with a padding, in the value that a key puts it into. -/
structure SignsLegacy (padding : Key.RsaPadding) (hash : Bytes) (key : SigningKey) (t : Tlv) :
    Prop where
  tag : key.legacySignatureTag = .ok t.tag
  size : t.data.length = key.signatureSize
  made : ∃ s s', Yields (key.signLegacy hash padding) s t.data s'

theorem signsLegacy_of_signedBy {k : SigningKey} {t : Tlv} {s s' : RandomSource}
    (h : Yields (p.signedBy hash k) s t s') : SignsLegacy p.padding hash k t := by
  obtain ⟨tag, _, htag, h⟩ := yields_bind.mp h
  obtain ⟨data, _, hsign, htlv⟩ := yields_bind.mp h
  have htag' := mapError_eq_ok_iff.mp (Random.yields_lift.mp htag).1
  obtain ⟨hsize, rfl⟩ := signatureTlv_eq_ok_iff.mp (Random.yields_lift.mp htlv).1
  exact ⟨htag', hsize, _, _, Random.yields_mapError.mp hsign⟩

/-! ## The result -/

/-- What an image of the older format owes to the plan that it is built from. -/
structure LegacyBuilds (p : LegacyPlan) (img : Legacy) (key : Option SigningKey)
    (signatures : List Tlv) : Prop where
  keys : p.keys = key.toList
  content : Content.Fits img.header.headerSize img.header.bodySize img.pad img.body
  declared : img.header.tlvSize.toNat = promisedSize key
  flags : img.header.flags = p.flags key
  signed : List.Forall₂ (SignsLegacy p.padding (img.contentHash p.initial)) key.toList signatures
  tlvs : img.tlvs =
    { tag := Legacy.sha256Tag, data := img.contentHash p.initial } :: signatures

theorem legacyBuilds_of_build {source : RandomSource} (h : p.build.eval source = .ok img) :
    ∃ key signatures, LegacyBuilds p img key signatures := by
  obtain ⟨_, h⟩ := Random.eval_eq_ok_iff.mp h
  obtain ⟨key, _, hkey, h⟩ := yields_bind.mp h
  obtain ⟨unsigned, _, hunsigned, h⟩ := yields_bind.mp h
  obtain ⟨signatures, _, hsigned, h⟩ := yields_bind.mp h
  obtain ⟨rfl, -⟩ := yields_pure.mp h
  obtain ⟨pad, hpad, h⟩ := bind_eq_ok_iff.mp (Random.yields_lift.mp hunsigned).1
  obtain ⟨bodySize, hbody, h⟩ := bind_eq_ok_iff.mp h
  obtain ⟨_, -, h⟩ := bind_eq_ok_iff.mp h
  obtain ⟨tlvSize, hsize, h⟩ := bind_eq_ok_iff.mp h
  obtain rfl := Except.ok.inj h
  obtain ⟨hheader, rfl⟩ := padding_eq_ok_iff.mp hpad
  obtain ⟨hlength, rfl⟩ := bodySize_eq_ok_iff.mp hbody
  have hsigns := hsigned.forall₂_of_mapM.imp fun _ _ ⟨_, _, hrun⟩ => signsLegacy_of_signedBy hrun
  exact ⟨key, signatures, key?_eq_ok_iff.mp (Random.yields_lift.mp hkey).1,
    fits_of_sizes hheader hlength rfl, toNat_of_tlvSize hsize, rfl, hsigns, rfl⟩

/-- There is no key and no signature, or one key and one signature. -/
theorem signatures_cases {padding : Key.RsaPadding}
    (h : List.Forall₂ (SignsLegacy padding hash) key.toList signatures) :
    (key = none ∧ signatures = []) ∨
      ∃ k t, key = some k ∧ signatures = [t] ∧ SignsLegacy padding hash k t := by
  cases key with
  | none =>
      cases h
      exact .inl ⟨rfl, rfl⟩
  | some k =>
      cases h with
      | cons hsigns hrest =>
          cases hrest
          exact .inr ⟨k, _, rfl, rfl, hsigns⟩

/-! ## The size of the values -/

theorem areaSize_signatures {padding : Key.RsaPadding}
    (h : List.Forall₂ (SignsLegacy padding hash) key.toList signatures) :
    Tlv.areaSize signatures = key.elim 0 fun key => Tlv.sizeFor key.signatureSize := by
  rcases signatures_cases h with ⟨rfl, rfl⟩ | ⟨k, t, rfl, rfl, hsigns⟩
  · rfl
  · exact congrArg Tlv.sizeFor hsigns.size

/-- The size that was declared is the size of the values. -/
theorem LegacyBuilds.tlvSize_eq (h : LegacyBuilds p img key signatures) :
    img.header.tlvSize.toNat = img.tlvSize := by
  have hhash : (img.contentHash p.initial).length = Content.hashLength := Crypto.length_sha256 _
  rw [h.declared, Legacy.tlvSize, h.tlvs, promisedSize, ← areaSize_signatures h.signed, ← hhash]
  rfl

/-! ## The hash -/

/-- The tag of a signature is not that of the hash. -/
theorem legacySignatureTag_ne {k : SigningKey} {tag : UInt8} (h : k.legacySignatureTag = .ok tag) :
    tag ≠ Legacy.sha256Tag := by
  cases k with
  | rsa k =>
      change (if _ then _ else _) = _ at h
      split at h
      · cases h
        decide
      · cases h
  | ec curve scalar point =>
      cases curve with
      | p224 =>
          cases h
          decide
      | p256 =>
          cases h
          decide
  | ed25519 seed => cases h

theorem LegacyBuilds.hash_eq (h : LegacyBuilds p img key signatures) :
    img.hash = .ok (img.contentHash p.initial) := by
  have hrest : signatures.filter (·.tag = Legacy.sha256Tag) = [] := by
    rcases signatures_cases h.signed with ⟨-, rfl⟩ | ⟨k, t, -, rfl, hsigns⟩
    · rfl
    · rw [List.filter_cons_of_neg, List.filter_nil]
      rw [decide_eq_true_eq]
      exact legacySignatureTag_ne hsigns.tag
  refine Verify.legacyHash_eq_ok_iff.mpr
    ⟨{ tag := Legacy.sha256Tag, data := img.contentHash p.initial }, ?_, rfl,
      Crypto.length_sha256 _⟩
  rw [h.tlvs, List.filter_cons_of_pos, hrest]
  exact decide_eq_true rfl

/-! ## The signature -/

/-- The check of an RSA signature uses the padding that it was made with, whatever other flags there
are. -/
theorem legacyPadding_flags {k : SigningKey} (h : k.algorithm = .rsa) :
    Verify.legacyPadding (p.flags (some k)) = p.padding := by
  unfold LegacyPlan.flags LegacyPlan.keyFlag
  rw [Option.elim_some, h]
  generalize p.initial.isSome = chained
  generalize p.padding = padding
  cases padding with
  | pkcs1 =>
      revert chained
      decide
  | pss =>
      revert chained
      decide

/-- What the key of a plan has signed, its public half verifies with the padding that the flags
tell. -/
theorem LegacyBuilds.verifyLegacy_eq {k : SigningKey} {t : Tlv}
    (h : LegacyBuilds p img (some k) [t]) (haccepts : k.AcceptsOwnWith p.padding) :
    k.publicKey.verifyLegacy (img.contentHash p.initial) t.data
      (Verify.legacyPadding img.header.flags) = .ok () := by
  obtain ⟨hsigns, -⟩ := List.forall₂_cons.mp h.signed
  obtain ⟨_, _, hmade⟩ := hsigns.made
  have hown := Key.verifyLegacy_of_signLegacy haccepts hmade hsigns.size
  by_cases hrsa : k.algorithm = .rsa
  · rw [h.flags, legacyPadding_flags hrsa]
    exact hown
  · have hother : k.publicKey.algorithm ≠ .rsa := by rwa [Key.algorithm_publicKey]
    rw [Key.verifyLegacy_of_ne_rsa hother _ _ _ p.padding]
    exact hown

theorem LegacyBuilds.checkLegacy_some {k : SigningKey} (h : LegacyBuilds p img key signatures)
    (hk : k ∈ p.keys) (haccepts : k.AcceptsOwnWith p.padding) :
    Verify.checkLegacy img p.initial (some k.publicKey) = .ok () := by
  rw [h.keys, Option.mem_toList] at hk
  rcases signatures_cases h.signed with ⟨rfl, -⟩ | ⟨k', t, rfl, rfl, hsigns⟩
  · cases hk
  · obtain rfl := Option.some.inj hk
    refine Verify.checkLegacy_some_eq_ok_iff.mpr
      ⟨h.hash_eq, t.tag, t, ?_, ?_, h.verifyLegacy_eq haccepts⟩
    · rw [Key.legacySignatureTag_publicKey]
      exact hsigns.tag
    · rw [h.tlvs, List.find?_cons_of_neg]
      · exact List.find?_cons_of_pos (beq_self_eq_true t.tag)
      · rw [beq_iff_eq]
        exact (legacySignatureTag_ne hsigns.tag).symm

/-! ## All of it -/

/-- A built image of the older format is written and read back as it is, declares the size of its
values, carries its own hash, and is signed by the key of its plan, with either padding.  A plan
with two keys, or with a key that cannot sign such images, is not built. -/
theorem checkLegacy_build (p : LegacyPlan) (source : RandomSource) :
    (∀ img, p.build.eval source = .ok img →
      (∃ data, img.toBytes = .ok data ∧ Legacy.parse data = .ok img) ∧
      img.header.tlvSize.toNat = img.tlvSize ∧
      Verify.checkLegacy img p.initial none = .ok () ∧
      ∀ key ∈ p.keys, key.AcceptsOwnWith p.padding →
        Verify.checkLegacy img p.initial (some key.publicKey) = .ok ()) ∧
    ((1 < p.keys.length ∨ ∃ key ∈ p.keys, ∃ e, key.legacySignatureTag = .error e) →
      ∃ e, p.build.eval source = .error e) := by
  constructor
  · intro img hbuild
    obtain ⟨key, signatures, h⟩ := legacyBuilds_of_build hbuild
    have hfile : Legacy.Denotes img _ := ⟨h.content, h.tlvSize_eq, rfl⟩
    exact ⟨⟨_, Legacy.toBytes_eq_ok_iff_denotes.mpr hfile,
        Legacy.parse_eq_ok_iff_denotes.mpr hfile⟩,
      h.tlvSize_eq, Verify.checkLegacy_none_eq_ok_iff.mpr h.hash_eq,
      fun _ hk haccepts => h.checkLegacy_some hk haccepts⟩
  · intro hunfit
    cases hbuild : p.build.eval source with
    | error e => exact ⟨e, rfl⟩
    | ok img =>
        obtain ⟨key, signatures, h⟩ := legacyBuilds_of_build hbuild
        rcases signatures_cases h.signed with ⟨rfl, -⟩ | ⟨k, t, rfl, -, hsigns⟩
        · rw [h.keys] at hunfit
          rcases hunfit with hmany | ⟨_, hk, -⟩
          · cases hmany
          · cases hk
        · rw [h.keys] at hunfit
          rcases hunfit with hmany | ⟨_, hk, e, htag⟩
          · exact absurd hmany (Nat.lt_irrefl 1)
          · obtain rfl := List.mem_singleton.mp hk
            cases htag.symm.trans hsigns.tag

/-! ## A chained image

An image of the older format that is not booted itself, with an RSA signature in the padding that
the newer format does not know; and the same image with a key that cannot sign such images.
-/

namespace Chained

def plan : LegacyPlan where
  body := [1, 2, 3]
  version := ⟨1, 0, 0, 0⟩
  keys := [.rsa Crypto.Rsa.primeKey]
  keyId := 5
  initial := some [4, 5]
  padding := .pkcs1

def refused : LegacyPlan := { plan with keys := [.ed25519 (List.replicate 32 7)] }

set_option maxRecDepth 100000 in
theorem exists_image : ∃ img, plan.build.eval (.cycle [42]) = .ok img := by
  apply exists_eq_ok
  decide +kernel

theorem acceptsOwnWith : ∀ key ∈ plan.keys, key.AcceptsOwnWith plan.padding :=
  List.forall_mem_singleton.mpr (Key.acceptsOwnWith_rsa Crypto.Rsa.hasPrimes_primeKey.isValid _)

end Chained

/-- The chained image verifies with and without its key, and the refused one is not built. -/
theorem checkLegacy_build_chained :
    (∃ img, Chained.plan.build.eval (.cycle [42]) = .ok img ∧
      (∃ data, img.toBytes = .ok data ∧ Legacy.parse data = .ok img) ∧
      img.header.tlvSize.toNat = img.tlvSize ∧
      Verify.checkLegacy img Chained.plan.initial none = .ok () ∧
      ∀ key ∈ Chained.plan.keys,
        Verify.checkLegacy img Chained.plan.initial (some key.publicKey) = .ok ()) ∧
    ∃ e, Chained.refused.build.eval (.cycle [42]) = .error e := by
  constructor
  · obtain ⟨img, hbuild⟩ := Chained.exists_image
    obtain ⟨hfile, hsize, hplain, hsigned⟩ :=
      (checkLegacy_build Chained.plan (.cycle [42])).1 img hbuild
    exact ⟨img, hbuild, hfile, hsize, hplain,
      fun key hkey => hsigned key hkey (Chained.acceptsOwnWith key hkey)⟩
  · exact (checkLegacy_build Chained.refused (.cycle [42])).2
      (.inr ⟨_, List.mem_singleton_self _, _, rfl⟩)

end Firmware.Build
