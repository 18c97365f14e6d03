import Firmware.Proofs.Build
import Firmware.Proofs.Image.Grammar
import Firmware.Proofs.Key.Signature

/-!
# What a build comes to

`build_eq` : when every step before the last one succeeds, the check of the structure decides what a
build comes to.  `exists_build` : it succeeds if the keys have pairwise distinct hashes.

The area of a build is a content hash, blocks and perhaps a wrapped secret behind them, whatever the
keys are; so it keeps the local rules by the grammar of areas (`Image.shape_iff`).  What is left of
the check is the rule on repeated key hashes, and the key hashes of the area are those of the keys,
in their order.

That every step before the check succeeds is said along the run, since each key that signs draws
from the source that the keys before it have left.
-/

namespace Firmware.Build

open Key (SigningKey)

variable {p : Plan} {hash body : Bytes} {keys : List SigningKey} {signatures : List Tlv}
  {wrapped : Option Tlv} {s s₁ s' : RandomSource}

/-! ## The key hashes of a built area -/

theorem keyHashes_pairs (hsigned : List.Forall₂ (Signs hash) keys signatures) :
    Image.keyHashes (pairs keys signatures) = keys.map (·.publicKey.keyHash) := by
  induction hsigned with
  | nil => rfl
  | @cons key t keys signatures hsigns _ ih =>
      have htag := Tlv.tags_of_isSignature (isSignature_of_signatureTag hsigns.tag)
      have hpair : (pair key t).filter (·.tag = Tlv.keyHashTag) =
          [{ tag := Tlv.keyHashTag, data := key.publicKey.keyHash }] := by
        simp [pair, htag.1]
      unfold Image.keyHashes at ih ⊢
      show ((pair key t ++ pairs keys signatures).filter _).map _ = _
      rw [List.filter_append, hpair]
      exact congrArg (_ :: ·) ih

/-- The content hash and the wrapped secret hold no key hash. -/
theorem keyHashes_area (hsigned : List.Forall₂ (Signs hash) keys signatures)
    (hwrapped : ∀ t ∈ wrapped, Tlv.isSecret t.tag = true) :
    Image.keyHashes (area hash keys signatures wrapped) = keys.map (·.publicKey.keyHash) := by
  have hnone : wrapped.toList.filter (·.tag = Tlv.keyHashTag) = [] := by
    rw [List.filter_eq_nil_iff]
    intro t ht
    rw [decide_eq_true_eq]
    exact (Tlv.tags_of_isSecret (hwrapped t (Option.mem_toList.mp ht))).1
  rw [← keyHashes_pairs hsigned]
  show ((pairs keys signatures ++ wrapped.toList).filter _).map _ = _
  rw [List.filter_append, hnone, List.append_nil]
  rfl

/-! ## The rules that a built area keeps -/

theorem blocks_pairs (hsigned : List.Forall₂ (Signs hash) keys signatures)
    (hwrapped : ∀ t ∈ wrapped, Tlv.isSecret t.tag = true) :
    Image.Blocks (pairs keys signatures ++ wrapped.toList) := by
  induction hsigned with
  | nil =>
      cases wrapped with
      | none => exact .nil
      | some t => exact .secret (hwrapped t rfl)
  | @cons key t keys signatures hsigns _ ih =>
      show Image.Blocks ((pair key t ++ pairs keys signatures) ++ wrapped.toList)
      rw [List.append_assoc]
      exact .append (.signed rfl (isSignature_of_signatureTag hsigns.tag)) ih

/-- A built area can break no rule but the one on repeated key hashes. -/
theorem violations_area (hsigned : List.Forall₂ (Signs hash) keys signatures)
    (hwrapped : ∀ t ∈ wrapped, Tlv.isSecret t.tag = true) :
    Image.violations (area hash keys signatures wrapped) =
      Image.duplicateViolations (area hash keys signatures wrapped) := by
  obtain ⟨hhead, hpairs, hsecrets⟩ :=
    (Image.shape_iff { tag := Tlv.sha256Tag, data := hash } _).mpr
      ⟨rfl, blocks_pairs hsigned hwrapped⟩
  rw [← List.cons_append] at hhead hpairs hsecrets
  unfold Image.violations area
  rw [hhead, hpairs, hsecrets, List.nil_append, List.nil_append, List.append_nil]

/-! ## Runs that come to the check -/

/-- The header of the image that a plan asks for. -/
def Plan.header (p : Plan) : Image.Header where
  headerSize := p.headerSize
  bodySize := UInt32.ofNat p.body.length
  flags := p.flags
  version := p.version

/-- The hash that the keys of a plan sign. -/
def Plan.contentHash (p : Plan) : Bytes :=
  Image.contentHashOf p.initial p.header
    (Bytes.zeros (p.headerSize.toNat - Content.headerLength)) p.body

/-- The hashes of the keys that sign, in order. -/
def Plan.keyHashes (p : Plan) : List Bytes := p.keys.map (·.publicKey.keyHash)

/-- A secret is wrapped, if the plan has a key for it; that takes the source from one state to the
other. -/
inductive Wraps (p : Plan) : RandomSource → RandomSource → Prop where
  | plain {s : RandomSource} : p.wrapKey = none → Wraps p s s
  | wrapped {s s₁ s' : RandomSource} {data : Bytes} {secret : Key128} {t : Tlv} :
      p.wrapKey = some data →
      Yields (Secret.generate : Random Error Key128) s secret s₁ →
      Yields (Secret.wrap data secret) s₁ t s' → Wraps p s s'

/-- One key after the other signs a hash, with a tag for its signature and a signature of the size
that it promises; that takes the source from one state to the other. -/
inductive AllSign (hash : Bytes) : List SigningKey → RandomSource → RandomSource → Prop where
  | nil {s : RandomSource} : AllSign hash [] s s
  | cons {s s₁ s' : RandomSource} {key : SigningKey} {keys : List SigningKey} {tag : UInt8}
      {sig : Bytes} : key.signatureTag = .ok tag → Yields (key.sign hash) s sig s₁ →
      sig.length = key.signatureSize → AllSign hash keys s₁ s' → AllSign hash (key :: keys) s s'

theorem yields_encrypted_of_wrap {data : Bytes} {secret : Key128} {t : Tlv}
    (hsome : p.wrapKey = some data)
    (hsecret : Yields (Secret.generate : Random Error Key128) s secret s₁)
    (hwrap : Yields (Secret.wrap data secret) s₁ t s') :
    Yields p.encrypted s (Secret.crypt secret p.body, some t) s' := by
  unfold Plan.encrypted
  rw [hsome]
  exact yields_bind.mpr ⟨_, _, hsecret, yields_bind.mpr
    ⟨_, _, Random.yields_mapError.mpr hwrap, yields_pure.mpr ⟨rfl, rfl⟩⟩⟩

theorem Wraps.exists_yields (h : Wraps p s s') :
    ∃ body wrapped, Yields p.encrypted s (body, wrapped) s' := by
  cases h with
  | plain hnone =>
      unfold Plan.encrypted
      rw [hnone]
      exact ⟨_, _, yields_pure.mpr ⟨rfl, rfl⟩⟩
  | wrapped hsome hsecret hwrap => exact ⟨_, _, yields_encrypted_of_wrap hsome hsecret hwrap⟩

theorem yields_signedBy_of_sign {key : SigningKey} {tag : UInt8} {sig : Bytes}
    (htag : key.signatureTag = .ok tag) (hsign : Yields (key.sign hash) s sig s')
    (hsize : sig.length = key.signatureSize) :
    Yields (Plan.signedBy hash key) s (pair key { tag, data := sig }) s' := by
  refine yields_bind.mpr ⟨tag, s, ?_, yields_bind.mpr ⟨sig, s', ?_, yields_bind.mpr
    ⟨{ tag, data := sig }, s', ?_, yields_pure.mpr ⟨rfl, rfl⟩⟩⟩⟩
  · exact Random.yields_lift.mpr ⟨mapError_eq_ok_iff.mpr htag, rfl⟩
  · exact Random.yields_mapError.mpr hsign
  · exact Random.yields_lift.mpr ⟨signatureTlv_eq_ok_iff.mpr ⟨hsize, rfl⟩, rfl⟩

theorem yields_mapM_signedBy_cons {key : SigningKey} {tag : UInt8} {sig : Bytes}
    {tss : List (List Tlv)} (htag : key.signatureTag = .ok tag)
    (hsign : Yields (key.sign hash) s sig s₁) (hsize : sig.length = key.signatureSize)
    (hrest : Yields (keys.mapM (Plan.signedBy hash)) s₁ tss s') :
    Yields ((key :: keys).mapM (Plan.signedBy hash)) s (pair key { tag, data := sig } :: tss) s' := by
  rw [List.mapM_cons]
  exact yields_bind.mpr ⟨_, _, yields_signedBy_of_sign htag hsign hsize, yields_bind.mpr
    ⟨_, _, hrest, yields_pure.mpr ⟨rfl, rfl⟩⟩⟩

theorem AllSign.exists_yields (h : AllSign hash keys s s') :
    ∃ tss, Yields (keys.mapM (Plan.signedBy hash)) s tss s' := by
  induction h with
  | nil => exact ⟨[], yields_pure.mpr ⟨rfl, rfl⟩⟩
  | cons htag hsign hsize _ ih =>
      obtain ⟨tss, hrest⟩ := ih
      exact ⟨_, yields_mapM_signedBy_cons htag hsign hsize hrest⟩

/-- An RSA key with prime factors, of a size that signs, never keeps the keys behind it from their
turn. -/
theorem exists_allSign_cons {key : Crypto.Rsa.PrivateKey} (hkey : key.HasPrimes) {tag : UInt8}
    (htag : (SigningKey.rsa key).signatureTag = .ok tag)
    (hhash : hash.length = Crypto.Rsa.hashSize) (s : RandomSource) :
    ∃ s₁, ∀ keys s', AllSign hash keys s₁ s' → AllSign hash (.rsa key :: keys) s s' := by
  obtain ⟨_, s₁, hsign, hsize⟩ := Key.exists_yields_sign_rsa hkey htag hhash s
  exact ⟨s₁, fun _ _ hrest => .cons htag hsign hsize hrest⟩

/-- The image that a run has put together when it comes to the check. -/
def Plan.image (p : Plan) (body : Bytes) (tss : List (List Tlv)) (wrapped : Option Tlv) : Image where
  header := p.header
  pad := Bytes.zeros (p.headerSize.toNat - Content.headerLength)
  body
  tlvs := { tag := Tlv.sha256Tag, data := p.contentHash } :: tss.flatten ++ wrapped.toList

theorem exists_signatures_of_yields {tss : List (List Tlv)}
    (h : Yields (keys.mapM (Plan.signedBy hash)) s tss s') :
    ∃ signatures, List.Forall₂ (Signs hash) keys signatures ∧
      tss = List.zipWith pair keys signatures :=
  exists_signatures (h.forall₂_of_mapM.imp fun _ _ ⟨_, _, hrun⟩ => yields_signedBy hrun)

/-- A test that draws nothing, and a result behind it. -/
theorem run_lift_then {ε α : Type} (r : Except ε Unit) (a : α) (s : RandomSource) :
    ((Random.lift r >>= fun _ => pure a : Random ε α) s).1 = r >>= fun _ => .ok a := by
  cases r with
  | error e => rfl
  | ok u => rfl

/-- What a build comes to is decided by the check of the area. -/
theorem build_eq {tss : List (List Tlv)} (hheader : Content.headerLength ≤ p.headerSize.toNat)
    (hbody : p.body.length < UInt32.size) (hencrypted : Yields p.encrypted s (body, wrapped) s₁)
    (hsignatures : Yields (p.keys.mapM (Plan.signedBy p.contentHash)) s₁ tss s') :
    p.build.eval s = (Verify.checkStructure (p.image body tss wrapped)).mapError Error.verify >>=
      fun _ => .ok (p.image body tss wrapped) := by
  have hpad := Random.yields_lift (s := s).mpr ⟨padding_eq_ok_iff.mpr ⟨hheader, rfl⟩, rfl⟩
  have hsize := Random.yields_lift (s := s).mpr ⟨bodySize_eq_ok_iff.mpr ⟨hbody, rfl⟩, rfl⟩
  unfold Random.eval Plan.build
  rw [hpad.bind_run, hsize.bind_run, hencrypted.bind_run]
  show ((p.keys.mapM (Plan.signedBy p.contentHash) >>= _) s₁).1 = _
  rw [hsignatures.bind_run]
  exact run_lift_then _ (p.image body tss wrapped) s'

/-! ## The check of the image -/

section Check

variable {tss : List (List Tlv)}

/-- An image that comes to the check can break no rule but the one on repeated key hashes. -/
theorem violations_image (hencrypted : Yields p.encrypted s (body, wrapped) s₁)
    (hsignatures : Yields (p.keys.mapM (Plan.signedBy p.contentHash)) s₁ tss s') :
    Image.violations (p.image body tss wrapped).tlvs =
        Image.duplicateViolations (p.image body tss wrapped).tlvs ∧
      Image.keyHashes (p.image body tss wrapped).tlvs = p.keyHashes := by
  have hwrapped := isSecret_of_encrypts (yields_encrypted hencrypted)
  obtain ⟨signatures, hsigned, rfl⟩ := exists_signatures_of_yields hsignatures
  exact ⟨violations_area hsigned hwrapped, keyHashes_area hsigned hwrapped⟩

theorem build_eq_ok (hheader : Content.headerLength ≤ p.headerSize.toNat)
    (hbody : p.body.length < UInt32.size) (hencrypted : Yields p.encrypted s (body, wrapped) s₁)
    (hsignatures : Yields (p.keys.mapM (Plan.signedBy p.contentHash)) s₁ tss s')
    (hdistinct : p.keyHashes.Nodup) : p.build.eval s = .ok (p.image body tss wrapped) := by
  obtain ⟨hviolations, hhashes⟩ := violations_image hencrypted hsignatures
  have hcheck : Verify.checkStructure (p.image body tss wrapped) = .ok () := by
    rw [checkStructure_eq_ok_iff, hviolations, Image.duplicateViolations_eq_nil_iff, hhashes]
    exact hdistinct
  rw [build_eq hheader hbody hencrypted hsignatures, hcheck]
  rfl

end Check

/-- A build that comes to its check succeeds if its keys have pairwise distinct hashes. -/
theorem exists_build (hheader : Content.headerLength ≤ p.headerSize.toNat)
    (hbody : p.body.length < UInt32.size) (hwraps : Wraps p s s₁)
    (hsign : AllSign p.contentHash p.keys s₁ s') (hdistinct : p.keyHashes.Nodup) :
    ∃ img, p.build.eval s = .ok img := by
  obtain ⟨body, wrapped, hencrypted⟩ := hwraps.exists_yields
  obtain ⟨tss, hsignatures⟩ := hsign.exists_yields
  exact ⟨_, build_eq_ok hheader hbody hencrypted hsignatures hdistinct⟩

end Firmware.Build
