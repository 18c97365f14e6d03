import Firmware.Build
import Firmware.Proofs.Content
import Firmware.Proofs.Secret
import Firmware.Proofs.Verify

/-!
# What building an image comes to

Building is a run that draws random bytes and may fail at every step.  `builds_of_build` turns a run
that succeeds into facts about its result: the header, the hash, the relation between the plaintext
and the body of the image, one signature for each key, and the TLV area, `area`, that they are put
into.

What later proofs need about that area follows from the tags alone: a signature is marked as one,
and no tag has two of the four meanings.
-/

namespace Firmware.Build

open Key (SigningKey)

/-! ## The steps -/

theorem padding_eq_ok_iff {headerSize : UInt16} {pad : Bytes} :
    padding headerSize = .ok pad ↔
      Content.headerLength ≤ headerSize.toNat ∧
        Bytes.zeros (headerSize.toNat - Content.headerLength) = pad := by
  unfold padding
  rw [else_eq_ok_iff, Nat.not_lt, Except.ok.injEq]

theorem bodySize_eq_ok_iff {body : Bytes} {size : UInt32} :
    bodySize body = .ok size ↔ body.length < UInt32.size ∧ UInt32.ofNat body.length = size := by
  unfold bodySize
  rw [then_eq_ok_iff, Except.ok.injEq]

/-- Sizes that were taken from the contents fit them, also when the body is replaced by one of the
same length. -/
theorem fits_of_sizes {headerSize : UInt16} {body plain : Bytes}
    (hheader : Content.headerLength ≤ headerSize.toNat) (hplain : plain.length < UInt32.size)
    (hbody : body.length = plain.length) :
    Content.Fits headerSize (UInt32.ofNat plain.length)
      (Bytes.zeros (headerSize.toNat - Content.headerLength)) body := by
  refine ⟨?_, ?_⟩
  · rw [Bytes.length_zeros, Nat.add_sub_cancel' hheader]
  · rw [UInt32.toNat_ofNat_of_lt' hplain, hbody]

theorem signatureTlv_eq_ok_iff {key : SigningKey} {tag : UInt8} {sig : Bytes} {t : Tlv} :
    signatureTlv key tag sig = .ok t ↔
      sig.length = key.signatureSize ∧ ({ tag, data := sig } : Tlv) = t := by
  unfold signatureTlv
  rw [then_eq_ok_iff, Except.ok.injEq]

/-- A signature of a hash in the value that a key puts it into. -/
structure Signs (hash : Bytes) (key : SigningKey) (t : Tlv) : Prop where
  tag : key.signatureTag = .ok t.tag
  size : t.data.length = key.signatureSize
  made : ∃ s s', Yields (key.sign hash) s t.data s'
  pad : t.pad = 0

/-- The key hash of a key and a signature behind it. -/
def pair (key : SigningKey) (t : Tlv) : List Tlv :=
  [{ tag := Tlv.keyHashTag, data := key.publicKey.keyHash }, t]

theorem yields_signedBy {hash : Bytes} {key : SigningKey} {s s' : RandomSource} {ts : List Tlv}
    (h : Yields (Plan.signedBy hash key) s ts s') : ∃ t, Signs hash key t ∧ ts = pair key t := by
  obtain ⟨tag, _, htag, h⟩ := yields_bind.mp h
  obtain ⟨data, _, hsign, h⟩ := yields_bind.mp h
  obtain ⟨t, _, htlv, h⟩ := yields_bind.mp h
  obtain ⟨rfl, -⟩ := yields_pure.mp h
  have htag' := mapError_eq_ok_iff.mp (Random.yields_lift.mp htag).1
  obtain ⟨hsize, rfl⟩ := signatureTlv_eq_ok_iff.mp (Random.yields_lift.mp htlv).1
  exact ⟨_, ⟨htag', hsize, ⟨_, _, Random.yields_mapError.mp hsign⟩, rfl⟩, rfl⟩

/-- How the plaintext of a plan, the body of an image and the value with its wrapped secret belong
together. -/
inductive Encrypts (p : Plan) : Bytes → Option Tlv → Prop where
  | plain : p.wrapKey = none → Encrypts p p.body none
  | wrapped {data : Bytes} {key : Secret.WrapKey} {secret : Key128} {t : Tlv}
      {s s' : RandomSource} : p.wrapKey = some data → Secret.WrapKey.parse data = .ok key →
      Yields (key.wrap secret) s t s' → Encrypts p (Secret.crypt secret p.body) (some t)

theorem yields_encrypted {p : Plan} {s s' : RandomSource} {body : Bytes} {wrapped : Option Tlv}
    (h : Yields p.encrypted s (body, wrapped) s') : Encrypts p body wrapped := by
  unfold Plan.encrypted at h
  cases hkey : p.wrapKey with
  | none =>
      rw [hkey] at h
      obtain ⟨hresult, -⟩ := yields_pure.mp h
      obtain ⟨rfl, rfl⟩ := Prod.mk.inj hresult
      exact .plain hkey
  | some data =>
      rw [hkey] at h
      obtain ⟨secret, _, -, h⟩ := yields_bind.mp h
      obtain ⟨t, _, hwrap, h⟩ := yields_bind.mp h
      obtain ⟨hresult, -⟩ := yields_pure.mp h
      obtain ⟨rfl, rfl⟩ := Prod.mk.inj hresult
      obtain ⟨key, _, hparse, hwrap'⟩ := yields_bind.mp (Random.yields_mapError.mp hwrap)
      exact .wrapped hkey (Random.yields_lift.mp hparse).1 hwrap'

theorem Encrypts.isSome_eq {p : Plan} {body : Bytes} {wrapped : Option Tlv}
    (h : Encrypts p body wrapped) : wrapped.isSome = p.wrapKey.isSome := by
  cases h with
  | plain hnone =>
      rw [hnone]
      rfl
  | wrapped hsome =>
      rw [hsome]
      rfl

theorem Encrypts.body_eq {p : Plan} {body : Bytes} {wrapped : Option Tlv}
    (h : Encrypts p body wrapped) (hplain : p.wrapKey = none) : body = p.body := by
  cases h with
  | plain _ => rfl
  | wrapped hsome =>
      rw [hplain] at hsome
      cases hsome

theorem Encrypts.exists_secret {p : Plan} {body data : Bytes} {wrapped : Option Tlv}
    {key : Secret.WrapKey} (h : Encrypts p body wrapped)
    (hkey : p.wrapKey = some data) (hparse : Secret.WrapKey.parse data = .ok key) :
    ∃ secret t s s', wrapped = some t ∧ body = Secret.crypt secret p.body ∧
      Yields (key.wrap secret) s t s' := by
  cases h with
  | plain hnone =>
      rw [hkey] at hnone
      cases hnone
  | wrapped hsome hparse' hwrap =>
      obtain rfl := Option.some.inj (hkey.symm.trans hsome)
      obtain rfl := Except.ok.inj (hparse.symm.trans hparse')
      exact ⟨_, _, _, _, rfl, rfl, hwrap⟩

theorem Encrypts.length_eq {p : Plan} {body : Bytes} {wrapped : Option Tlv}
    (h : Encrypts p body wrapped) : body.length = p.body.length := by
  cases h with
  | plain _ => rfl
  | wrapped _ _ _ => exact Secret.length_crypt _ _

/-! ## The result -/

/-- Key hashes and signatures, pair by pair. -/
def pairs (keys : List SigningKey) (signatures : List Tlv) : List Tlv :=
  (List.zipWith pair keys signatures).flatten

/-- The TLV area of a built image. -/
def area (hash : Bytes) (keys : List SigningKey) (signatures : List Tlv) (wrapped : Option Tlv) :
    List Tlv :=
  { tag := Tlv.sha256Tag, data := hash } :: pairs keys signatures ++ wrapped.toList

/-- What an image owes to the plan that it is built from. -/
structure Builds (p : Plan) (img : Image) (hash : Bytes) (signatures : List Tlv)
    (wrapped : Option Tlv) : Prop where
  headerSize : Content.headerLength ≤ p.headerSize.toNat
  bodySize : p.body.length < UInt32.size
  header : img.header =
    { headerSize := p.headerSize, bodySize := UInt32.ofNat p.body.length, flags := p.flags,
      version := p.version }
  pad : img.pad = Bytes.zeros (p.headerSize.toNat - Content.headerLength)
  covers : hash = Image.contentHashOf p.initial img.header img.pad p.body
  signed : List.Forall₂ (Signs hash) p.keys signatures
  encrypted : Encrypts p img.body wrapped
  tlvs : img.tlvs = area hash p.keys signatures wrapped
  structured : Image.violations img.tlvs = []

theorem checkStructure_eq_ok_iff {img : Image} :
    Verify.checkStructure img = .ok () ↔ Image.violations img.tlvs = [] := by
  unfold Verify.checkStructure
  split
  · rename_i hnil
    exact ⟨fun _ => hnil, fun _ => rfl⟩
  · rename_i hsome
    constructor
    · intro h
      cases h
    · intro h
      exact absurd h hsome

theorem exists_signatures {hash : Bytes} {keys : List SigningKey} {tss : List (List Tlv)}
    (h : List.Forall₂ (fun key ts => ∃ t, Signs hash key t ∧ ts = pair key t) keys tss) :
    ∃ signatures, List.Forall₂ (Signs hash) keys signatures ∧
      tss = List.zipWith pair keys signatures := by
  induction h with
  | nil => exact ⟨[], .nil, rfl⟩
  | cons hhead _ ih =>
      obtain ⟨t, ht, rfl⟩ := hhead
      obtain ⟨signatures, hsigned, rfl⟩ := ih
      exact ⟨t :: signatures, .cons ht hsigned, rfl⟩

theorem builds_of_build {p : Plan} {source : RandomSource} {img : Image}
    (h : p.build.eval source = .ok img) :
    ∃ hash signatures wrapped, Builds p img hash signatures wrapped := by
  obtain ⟨_, h⟩ := Random.eval_eq_ok_iff.mp h
  obtain ⟨pad, _, hpad, h⟩ := yields_bind.mp h
  obtain ⟨size, _, hsize, h⟩ := yields_bind.mp h
  obtain ⟨⟨body, wrapped⟩, _, hencrypted, h⟩ := yields_bind.mp h
  obtain ⟨tss, _, htss, h⟩ := yields_bind.mp h
  obtain ⟨_, _, hcheck, h⟩ := yields_bind.mp h
  obtain ⟨rfl, -⟩ := yields_pure.mp h
  obtain ⟨hheader, rfl⟩ := padding_eq_ok_iff.mp (Random.yields_lift.mp hpad).1
  obtain ⟨hbody, rfl⟩ := bodySize_eq_ok_iff.mp (Random.yields_lift.mp hsize).1
  have hstructured := checkStructure_eq_ok_iff.mp
    (mapError_eq_ok_iff.mp (Random.yields_lift.mp hcheck).1)
  obtain ⟨signatures, hsigned, rfl⟩ := exists_signatures
    (htss.forall₂_of_mapM.imp fun _ _ ⟨_, _, hrun⟩ => yields_signedBy hrun)
  exact ⟨_, signatures, wrapped, hheader, hbody, rfl, rfl, rfl, hsigned,
    yields_encrypted hencrypted, rfl, hstructured⟩

/-! ## The tags in the area -/

theorem isSignature_of_signatureTag {key : SigningKey} {tag : UInt8}
    (h : key.signatureTag = .ok tag) : Tlv.isSignature tag = true := by
  cases key with
  | rsa key => exact @Verify.isSignature_of_signatureTag (.rsa key.toPublic) tag h
  | ec curve _ point => exact @Verify.isSignature_of_signatureTag (.ec curve point) tag h
  | ed25519 _ =>
      cases h
      rfl

theorem isSecret_of_encrypts {p : Plan} {body : Bytes} {wrapped : Option Tlv}
    (h : Encrypts p body wrapped) : ∀ t ∈ wrapped, Tlv.isSecret t.tag = true := by
  cases h with
  | plain _ =>
      intro t ht
      cases ht
  | wrapped _ _ hwrap =>
      intro t ht
      cases ht
      exact Secret.isSecret_of_wrap hwrap

section Area

variable {hash : Bytes} {keys : List SigningKey} {signatures : List Tlv} {wrapped : Option Tlv}

theorem tag_of_mem_pairs (h : List.Forall₂ (Signs hash) keys signatures) {t : Tlv}
    (ht : t ∈ pairs keys signatures) :
    t.tag = Tlv.keyHashTag ∨ Tlv.isSignature t.tag = true := by
  induction h with
  | nil => cases ht
  | cons hsigns _ ih =>
      rcases List.mem_append.mp ht with hhead | htail
      · rcases List.mem_cons.mp hhead with rfl | hsecond
        · exact .inl rfl
        · obtain rfl := List.mem_singleton.mp hsecond
          exact .inr (isSignature_of_signatureTag hsigns.tag)
      · exact ih htail

theorem filter_sha256_area (hsigned : List.Forall₂ (Signs hash) keys signatures)
    (hwrapped : ∀ t ∈ wrapped, Tlv.isSecret t.tag = true) :
    (area hash keys signatures wrapped).filter (·.tag = Tlv.sha256Tag) =
      [{ tag := Tlv.sha256Tag, data := hash }] := by
  have hrest : (pairs keys signatures ++ wrapped.toList).filter (·.tag = Tlv.sha256Tag) = [] := by
    rw [List.filter_eq_nil_iff]
    intro t ht
    rw [decide_eq_true_eq]
    rcases List.mem_append.mp ht with hpairs | hsecret
    · rcases tag_of_mem_pairs hsigned hpairs with htag | htag
      · rw [htag]
        decide
      · exact (Tlv.tags_of_isSignature htag).2.1
    · exact (Tlv.tags_of_isSecret (hwrapped t (Option.mem_toList.mp hsecret))).2
  exact congrArg (_ :: ·) hrest

theorem filter_isSecret_area (hsigned : List.Forall₂ (Signs hash) keys signatures)
    (hwrapped : ∀ t ∈ wrapped, Tlv.isSecret t.tag = true) :
    (area hash keys signatures wrapped).filter (fun t => Tlv.isSecret t.tag) = wrapped.toList := by
  have hpairs : (pairs keys signatures).filter (fun t => Tlv.isSecret t.tag) = [] := by
    rw [List.filter_eq_nil_iff]
    intro t ht
    rw [Bool.not_eq_true]
    rcases tag_of_mem_pairs hsigned ht with htag | htag
    · rw [htag]
      rfl
    · exact (Tlv.tags_of_isSignature htag).2.2
  have hsecret : wrapped.toList.filter (fun t => Tlv.isSecret t.tag) = wrapped.toList := by
    rw [List.filter_eq_self]
    intro t ht
    exact hwrapped t (Option.mem_toList.mp ht)
  show (pairs keys signatures ++ wrapped.toList).filter (fun t => Tlv.isSecret t.tag) = _
  rw [List.filter_append, hpairs, hsecret, List.nil_append]

end Area

/-! ## The flag and the hash -/

section Builds

variable {p : Plan} {img : Image} {hash : Bytes} {signatures : List Tlv} {wrapped : Option Tlv}

/-- The flags say *encrypted* exactly when the plan has a key for it, chained or not. -/
theorem flags_and_flagEncrypted (p : Plan) :
    (p.flags &&& Image.flagEncrypted != 0) = p.wrapKey.isSome := by
  unfold Plan.flags
  generalize p.wrapKey.isSome = encrypted
  generalize p.initial.isSome = chained
  revert encrypted chained
  decide +kernel

theorem Builds.isEncrypted_eq (h : Builds p img hash signatures wrapped) :
    img.header.isEncrypted = p.wrapKey.isSome := by
  rw [h.header]
  exact flags_and_flagEncrypted p

/-- The image carries the hash of its plan. -/
theorem Builds.hash_eq (h : Builds p img hash signatures wrapped) : img.hash = .ok hash := by
  have hunique := filter_sha256_area h.signed (isSecret_of_encrypts h.encrypted)
  rw [← h.tlvs] at hunique
  refine Verify.hash_eq_ok_iff.mpr ⟨_, hunique, rfl, ?_⟩
  rw [h.covers]
  exact Crypto.length_sha256 _

end Builds

end Firmware.Build
