import Firmware.Proofs.Build
import Firmware.Proofs.Image.Decrypt
import Firmware.Proofs.Image.Format

/-!
# Images stay writable

`Reachable.toBytes_spec` : an image that was read or built, and then had values added, values
removed and its body decrypted, in any order and any number of times, is written and read back as it
is, unless its area has outgrown the 16 bits of the trailer.  That is the only reason, and it is
reported as such.

The invariant is `Sized`: the sizes in the header are those of the padding and the body.  Reading
checks it, and the builder takes the sizes from the plaintext before it encrypts, which does not
change a length.  No edit touches the header or the padding except for a flag, and decryption gives
a body of the same length.  The area is no part of the invariant: it may outgrow the trailer and be
cut back again.
-/

namespace Firmware.Image

variable {img img' : Image}

/-! ## Removing values -/

/-- `Interleaves kept removed tlvs`: every value of the third list goes to one of the other two,
which keep its order. -/
inductive Interleaves : List Tlv → List Tlv → List Tlv → Prop where
  | nil : Interleaves [] [] []
  | keep {t : Tlv} {kept removed tlvs : List Tlv} :
      Interleaves kept removed tlvs → Interleaves (t :: kept) removed (t :: tlvs)
  | remove {t : Tlv} {kept removed tlvs : List Tlv} :
      Interleaves kept removed tlvs → Interleaves kept (t :: removed) (t :: tlvs)

/-- Divides values by a predicate that may have a state, which goes from one value to the next. -/
def divide {σ : Type} (p : σ → Tlv → Bool × σ) : σ → List Tlv → List Tlv × List Tlv
  | _, [] => ([], [])
  | s, t :: ts =>
    let (found, s) := p s t
    let (kept, removed) := divide p s ts
    if found then (kept, t :: removed) else (t :: kept, removed)

/-- The image without the values that satisfy a predicate with a state, and those values. -/
def withoutTlvsFrom {σ : Type} (img : Image) (p : σ → Tlv → Bool × σ) (s : σ) : Image × List Tlv :=
  ({ img with tlvs := (divide p s img.tlvs).1 }, (divide p s img.tlvs).2)

theorem interleaves_divide {σ : Type} (p : σ → Tlv → Bool × σ) (s : σ) (tlvs : List Tlv) :
    Interleaves (divide p s tlvs).1 (divide p s tlvs).2 tlvs := by
  induction tlvs generalizing s with
  | nil => exact .nil
  | cons t ts ih =>
      have hrest := ih (p s t).2
      unfold divide
      dsimp only
      split
      · exact .remove hrest
      · exact .keep hrest

theorem divide_eq_filter (p : Tlv → Bool) (tlvs : List Tlv) :
    divide (fun _ t => (p t, ())) () tlvs = (tlvs.filter (fun t => !p t), tlvs.filter p) := by
  induction tlvs with
  | nil => rfl
  | cons t ts ih =>
      rw [divide]
      dsimp only
      rw [ih]
      cases hfound : p t with
      | true => simp [hfound]
      | false => simp [hfound]

/-- A predicate without a state is one with a state that tells nothing. -/
theorem withoutTlvs_eq_withoutTlvsFrom (img : Image) (p : Tlv → Bool) :
    img.withoutTlvs p = img.withoutTlvsFrom (fun _ t => (p t, ())) () := by
  rw [withoutTlvsFrom, divide_eq_filter]
  rfl

/-! ## The invariant -/

/-- The sizes in the header are those of the padding and the body. -/
def Sized (img : Image) : Prop :=
  Content.Fits img.header.headerSize img.header.bodySize img.pad img.body

theorem sized_of_parse {data : Bytes} (h : parse data = .ok img) : img.Sized :=
  (parse_eq_ok_iff_denotes.mp h).content

theorem sized_of_build {p : Build.Plan} {source : RandomSource}
    (h : p.build.eval source = .ok img) : img.Sized := by
  obtain ⟨_, _, _, hbuilds⟩ := Build.builds_of_build h
  unfold Sized
  rw [hbuilds.header, hbuilds.pad]
  exact Build.fits_of_sizes hbuilds.headerSize hbuilds.bodySize hbuilds.encrypted.length_eq

/-- An edit of an image. -/
inductive Step : Image → Image → Prop where
  | addTlv (img : Image) (t : Tlv) : Step img (img.addTlv t)
  | withoutTlvs (img : Image) {σ : Type} (p : σ → Tlv → Bool × σ) (s : σ) :
      Step img (img.withoutTlvsFrom p s).1
  | decrypt {img img' : Image} {key : Secret.UnwrapKey} :
      img.decrypt key = .ok img' → Step img img'

theorem Step.of_withoutTlvs (img : Image) (p : Tlv → Bool) : Step img (img.withoutTlvs p).1 := by
  rw [withoutTlvs_eq_withoutTlvsFrom]
  exact .withoutTlvs img _ _

theorem Step.sized (h : Step img img') (hsized : img.Sized) : img'.Sized := by
  cases h with
  | addTlv t => exact hsized
  | withoutTlvs p s => exact hsized
  | decrypt hdecrypt =>
      obtain ⟨body, hbody, rfl⟩ := decrypt_eq_ok_iff.mp hdecrypt
      exact ⟨hsized.length_pad, (length_decryptedBody hbody).trans hsized.length_body⟩

/-- An image that comes from a file or from the builder, and from there through edits. -/
inductive Reachable : Image → Prop where
  | parsed {data : Bytes} {img : Image} : parse data = .ok img → Reachable img
  | built {p : Build.Plan} {source : RandomSource} {img : Image} :
      p.build.eval source = .ok img → Reachable img
  | step {img img' : Image} : Reachable img → Step img img' → Reachable img'

theorem Reachable.sized (h : Reachable img) : img.Sized := by
  induction h with
  | parsed hparse => exact sized_of_parse hparse
  | built hbuild => exact sized_of_build hbuild
  | step _ hstep ih => exact hstep.sized ih

/-! ## Writing -/

theorem Sized.toBytes_eq_error (h : img.Sized) (hlarge : 65535 < img.tlvTotalSize) :
    img.toBytes = .error (.tlvTotalTooLarge img.tlvTotalSize) :=
  toBytes_eq_error_of_fits h hlarge

theorem Sized.exists_toBytes (h : img.Sized) (hfits : img.tlvTotalSize ≤ 65535) :
    ∃ data, img.toBytes = .ok data ∧ parse data = .ok img := by
  have hdenotes : Denotes img _ := ⟨h, Nat.lt_succ_of_le hfits, rfl⟩
  exact ⟨_, toBytes_eq_ok_iff_denotes.mpr hdenotes, parse_eq_ok_iff_denotes.mpr hdenotes⟩

theorem Sized.toBytes_fails_iff (h : img.Sized) :
    (∃ e, img.toBytes = .error e) ↔ 65535 < img.tlvTotalSize := by
  constructor
  · rintro ⟨e, herror⟩
    by_contra hfits
    obtain ⟨data, hok, -⟩ := h.exists_toBytes (Nat.le_of_not_lt hfits)
    cases herror.symm.trans hok
  · intro hlarge
    exact ⟨_, h.toBytes_eq_error hlarge⟩

/-! ## All of it -/

/-- Writing an image that was reached fails only for the size of its area, with the error that says
so, and is undone by reading otherwise.  Adding and removing values leaves its content hash alone,
and what is removed goes to a list of its own. -/
theorem Reachable.toBytes_spec (h : Reachable img) :
    ((∃ e, img.toBytes = .error e) ↔ 65535 < img.tlvTotalSize) ∧
    (65535 < img.tlvTotalSize → img.toBytes = .error (.tlvTotalTooLarge img.tlvTotalSize)) ∧
    (img.tlvTotalSize ≤ 65535 → ∃ data, img.toBytes = .ok data ∧ parse data = .ok img) ∧
    (∀ t initial, (img.addTlv t).contentHash initial = img.contentHash initial) ∧
    (∀ (σ : Type) (p : σ → Tlv → Bool × σ) (s : σ),
      (∀ initial, (img.withoutTlvsFrom p s).1.contentHash initial = img.contentHash initial) ∧
      Interleaves (img.withoutTlvsFrom p s).1.tlvs (img.withoutTlvsFrom p s).2 img.tlvs) ∧
    ∀ p : Tlv → Bool,
      img.withoutTlvs p = img.withoutTlvsFrom (fun _ t => (p t, ())) () ∧
      (∀ t ∈ (img.withoutTlvs p).1.tlvs, p t = false) ∧
      ∀ t ∈ (img.withoutTlvs p).2, p t = true := by
  have hsized := h.sized
  refine ⟨hsized.toBytes_fails_iff, hsized.toBytes_eq_error, hsized.exists_toBytes,
    fun _ _ => rfl, ?_, ?_⟩
  · intro σ p s
    exact ⟨fun _ => rfl, interleaves_divide p s img.tlvs⟩
  · intro p
    refine ⟨withoutTlvs_eq_withoutTlvsFrom img p, ?_, ?_⟩
    · intro t ht
      have hkept := (List.mem_filter.mp ht).2
      rwa [Bool.not_eq_true'] at hkept
    · intro t ht
      exact (List.mem_filter.mp ht).2

/-! ## An image that outgrows its trailer

An encrypted image gets a value that is too large for the trailer, loses it again, and is decrypted.
-/

namespace Overfull

def kek : Key128 := ⟨List.replicate 16 1, rfl⟩

def secret : Key128 := ⟨List.replicate 16 2, rfl⟩

def wrapped : Tlv :=
  { tag := Tlv.encKekTag, data := Crypto.KeyWrap.wrap kek.bytes secret.bytes }

def start : Image where
  header := { headerSize := 32, bodySize := 3, flags := flagEncrypted, version := ⟨1, 0, 0, 0⟩ }
  pad := []
  body := [1, 2, 3]
  tlvs := [wrapped]

/-- A value with a tag of its own. -/
def large : Tlv := { tag := 0xa0, data := List.replicate 70000 0 }

def overfull : Image := start.addTlv large

theorem reachable_start : Reachable start := by
  have hfits : TlvsFit start.tlvs := by
    unfold TlvsFit
    decide +kernel
  have hdenotes : Denotes start _ := ⟨⟨rfl, rfl⟩, hfits, rfl⟩
  exact .parsed (parse_eq_ok_iff_denotes.mpr hdenotes)

theorem reachable_overfull : Reachable overfull := .step reachable_start (.addTlv start large)

theorem lt_tlvTotalSize : 65535 < overfull.tlvTotalSize := by
  have hmem : large ∈ overfull.tlvs := List.mem_append_right _ (List.mem_singleton_self _)
  have hlarge : large.size = 70004 := by
    rw [Tlv.size, large, List.length_replicate]
    rfl
  have hle := Tlv.size_le_areaSize hmem
  rw [tlvTotalSize]
  omega

theorem removed_large : (overfull.withoutTlvs (·.tag == large.tag)).1 = start := rfl

/-- The image in plaintext. -/
def plain : Image where
  header := start.header.decrypted
  pad := []
  body := Secret.crypt secret start.body
  tlvs := []

theorem decrypt_start : start.decrypt (.kek kek) = .ok plain := by
  have hbody : start.decryptedBody (.kek kek) = .ok (Secret.crypt secret start.body) :=
    decryptedBody_eq_ok_iff.mpr ⟨rfl, wrapped, secret, rfl, Secret.unwrap_kek kek secret, rfl⟩
  exact decrypt_eq_ok_iff.mpr ⟨_, hbody, rfl⟩

end Overfull

/-- The overfull image is not written; what is left of it without the large value is decrypted,
written and read back. -/
theorem Reachable.toBytes_spec_overfull :
    (Reachable Overfull.overfull ∧ Overfull.overfull.toBytes =
      .error (.tlvTotalTooLarge Overfull.overfull.tlvTotalSize)) ∧
    Reachable Overfull.plain ∧
      ∃ data, Overfull.plain.toBytes = .ok data ∧ parse data = .ok Overfull.plain := by
  have hover := Overfull.reachable_overfull
  have hstart := Reachable.step hover (.of_withoutTlvs _ (·.tag == Overfull.large.tag))
  rw [Overfull.removed_large] at hstart
  have hplain := Reachable.step hstart (.decrypt Overfull.decrypt_start)
  have hsize : Overfull.plain.tlvTotalSize ≤ 65535 := by decide
  exact ⟨⟨hover, (Reachable.toBytes_spec hover).2.1 Overfull.lt_tlvTotalSize⟩, hplain,
    (Reachable.toBytes_spec hplain).2.2.1 hsize⟩

end Firmware.Image
