import Firmware.Proofs.Build.Outcome
import Firmware.Proofs.Hex
import Firmware.Proofs.Verify

/-!
# When the builder refuses its own image

`build_selfCheck` : a build in which every step before the last one succeeds can fail its check of
the structure only because two of its keys have one hash.  Then it does fail, and it reports this
one breach, with the hashes that occur more than once.

`ListsRepeated` says of the report which hashes it tells and in which order.  They are compared as
byte strings and told as texts.
-/

namespace Firmware.Build

open Key (SigningKey)

/-! ## The hashes that occur more than once -/

/-- Texts are listed in ascending order, each of them once, if they occur more than once. -/
structure ListsRepeated (texts listed : List String) : Prop where
  ascending : listed.Pairwise (· < ·)
  mem_iff : ∀ text, text ∈ listed ↔ 1 < texts.count text

theorem mem_repeated_iff {hashes : List Bytes} {h : Bytes} :
    h ∈ Image.repeated hashes ↔ 1 < hashes.count h := by
  unfold Image.repeated
  rw [List.mem_mergeSort, List.mem_filter, List.mem_eraseDups, decide_eq_true_eq]
  exact and_iff_right_of_imp fun hcount => List.count_pos_iff.mp (Nat.lt_of_succ_lt hcount)

theorem pairwise_lt_repeated (hashes : List Bytes) :
    (Image.repeated hashes).Pairwise (· < ·) := by
  have hsorted : (Image.repeated hashes).Pairwise (· ≤ ·) := by
    have hle := @List.pairwise_mergeSort _ Bytes.ble
      (by simp only [Bytes.ble_iff_le]; intro a b c; exact List.le_trans)
      (by simp only [Bool.or_eq_true, Bytes.ble_iff_le]; exact List.le_total)
      (hashes.eraseDups.filter fun h => 1 < hashes.count h)
    exact hle.imp Bytes.ble_iff_le.mp
  have hnodup : (Image.repeated hashes).Nodup :=
    (List.mergeSort_perm _ _).symm.nodup ((Verify.nodup_eraseDups hashes).filter _)
  exact hsorted.imp₂ (fun _ _ => Std.lt_of_le_of_ne) hnodup

/-- The hashes are compared as byte strings and reported as texts, which makes no difference. -/
theorem listsRepeated_repeated (hashes : List Bytes) :
    ListsRepeated (hashes.map Hex.encode) ((Image.repeated hashes).map Hex.encode) := by
  have hcount : ∀ h, (hashes.map Hex.encode).count (Hex.encode h) = hashes.count h :=
    List.count_map_of_injective hashes Hex.encode Hex.encode_injective
  refine ⟨?_, fun text => ?_⟩
  · rw [List.pairwise_map]
    exact (pairwise_lt_repeated hashes).imp Hex.encode_lt_encode
  · rw [List.mem_map]
    constructor
    · rintro ⟨h, hmem, rfl⟩
      rw [hcount]
      exact mem_repeated_iff.mp hmem
    · intro htext
      obtain ⟨h, -, rfl⟩ := List.mem_map.mp (List.count_pos_iff.mp (Nat.lt_of_succ_lt htext))
      rw [hcount] at htext
      exact ⟨h, mem_repeated_iff.mpr htext, rfl⟩

/-! ## The check -/

/-- A build that comes to its check succeeds if the keys have pairwise distinct hashes.  Otherwise
it fails with the one breach that tells the hashes that occur more than once. -/
theorem build_selfCheck (p : Plan) (s s₁ s₂ : RandomSource)
    (hheader : Content.headerLength ≤ p.headerSize.toNat) (hbody : p.body.length < UInt32.size)
    (hwraps : Wraps p s s₁) (hsign : AllSign p.contentHash p.keys s₁ s₂) :
    (p.keyHashes.Nodup → ∃ img, p.build.eval s = .ok img) ∧
    (¬p.keyHashes.Nodup → ∃ hashes,
      p.build.eval s = .error (.verify (.violations [.duplicateKeyHashes hashes])) ∧
      ListsRepeated (p.keyHashes.map Hex.encode) (hashes.map Hex.encode)) := by
  refine ⟨exists_build hheader hbody hwraps hsign, ?_⟩
  intro hrepeated
  obtain ⟨body, wrapped, hencrypted⟩ := hwraps.exists_yields
  obtain ⟨tss, hsignatures⟩ := hsign.exists_yields
  obtain ⟨hviolations, hhashes⟩ := violations_image hencrypted hsignatures
  rw [← hhashes] at hrepeated
  rw [Image.duplicateViolations_of_not_nodup hrepeated, hhashes] at hviolations
  refine ⟨Image.repeated p.keyHashes, ?_, listsRepeated_repeated p.keyHashes⟩
  rw [build_eq hheader hbody hencrypted hsignatures, Verify.checkStructure, hviolations]
  rfl

/-! ## A key that signs twice -/

namespace SignedTwice

/-- A key-encryption key in base64. -/
def kekFile : Bytes := Bytes.ofText "BgYGBgYGBgYGBgYGBgYGBg=="

def kek : Key128 := ⟨List.replicate 16 6, rfl⟩

def key : SigningKey := .ed25519 (List.replicate 32 7)

/-- The plan of an encrypted image with some keys. -/
def plan (keys : List SigningKey) : Plan where
  body := [1, 2, 3]
  version := ⟨1, 0, 0, 0⟩
  keys
  wrapKey := some kekFile

set_option maxRecDepth 100000 in
theorem parse_kekFile : Secret.WrapKey.parse kekFile = .ok (.kek kek) := by
  decide +kernel

theorem wraps (keys : List SigningKey) : ∃ s, Wraps (plan keys) (.cycle [42]) s := by
  have hwrap : ∀ secret s, Yields (Secret.wrap kekFile secret) s
      { tag := Tlv.encKekTag, data := Crypto.KeyWrap.wrap kek.bytes secret.bytes } s := by
    intro secret s
    exact yields_bind.mpr ⟨_, s, Random.yields_lift.mpr ⟨parse_kekFile, rfl⟩,
      yields_pure.mpr ⟨rfl, rfl⟩⟩
  exact ⟨_, .wrapped rfl rfl (hwrap _ _)⟩

theorem allSign_cons (hash : Bytes) {keys : List SigningKey} {s s' : RandomSource}
    (h : AllSign hash keys s s') : AllSign hash (key :: keys) s s' := by
  have hsign : Yields (key.sign hash) s (Crypto.Ed25519.sign (List.replicate 32 7) hash) s :=
    yields_pure.mpr ⟨rfl, rfl⟩
  exact .cons rfl hsign rfl h

end SignedTwice

open SignedTwice in
/-- With one signature the image is built, and with two of the same key it is refused. -/
theorem build_selfCheck_signedTwice :
    (∃ img, (plan [key]).build.eval (.cycle [42]) = .ok img) ∧
    ∃ hashes, (plan [key, key]).build.eval (.cycle [42]) =
        .error (.verify (.violations [.duplicateKeyHashes hashes])) ∧
      ListsRepeated ((plan [key, key]).keyHashes.map Hex.encode) (hashes.map Hex.encode) := by
  obtain ⟨s, hwraps⟩ := SignedTwice.wraps [key]
  obtain ⟨s', hwraps'⟩ := SignedTwice.wraps [key, key]
  have hrepeated : ¬(plan [key, key]).keyHashes.Nodup := by
    intro h
    exact (List.nodup_cons.mp h).1 List.mem_cons_self
  exact ⟨(build_selfCheck (plan [key]) (.cycle [42]) s s (by decide) (by decide) hwraps
      (allSign_cons _ .nil)).1 (List.nodup_singleton _),
    (build_selfCheck (plan [key, key]) (.cycle [42]) s' s' (by decide) (by decide) hwraps'
      (allSign_cons _ (allSign_cons _ .nil))).2 hrepeated⟩

end Firmware.Build
