import Firmware.Proofs.Run
import Firmware.Proofs.Tlv
import Firmware.Verify
import Mathlib.Data.List.ReduceOption

/-!
# What the checks of an image establish

The check of the signatures walks over the adjacent values, skips what is no pair of key hash and
signature, looks every key hash up in a list of keys, and keeps the places of the keys it met.
`checkSignatures_eq_ok_iff` replaces the walk by a statement about places: every pair whose hash
names a key of the list is accepted by the *first* key with that hash, and the result is the list of
the places so found, in ascending order and each one once.

`checkHash_eq_ok_iff` does the same for the content hash, where the plaintext is a relation,
`PlainBody`, between an image, an optional key and a body.
-/

namespace Firmware.Verify

open Key (PublicKey)

/-! ## The content hash -/

theorem hash_eq_ok_iff {img : Image} {hash : Bytes} :
    img.hash = .ok hash ↔
      ∃ t, img.tlvs.filter (·.tag = Tlv.sha256Tag) = [t] ∧ t.data = hash ∧
        hash.length = Content.hashLength := by
  unfold Image.hash
  constructor
  · intro h
    split at h
    · cases h
    · rename_i t ht
      obtain ⟨hlen, h⟩ := then_eq_ok_iff.mp h
      obtain rfl := Except.ok.inj h
      exact ⟨t, Tlv.findUnique_eq_ok_iff.mp ht, rfl, hlen⟩
  · rintro ⟨t, hfilter, rfl, hlen⟩
    rw [Tlv.findUnique_eq_ok_iff.mpr hfilter]
    exact if_pos hlen

/-- The plaintext body of an image is known: it is the body as it stands, or what a given key
decrypts it to. -/
inductive PlainBody (img : Image) : Option Secret.UnwrapKey → Bytes → Prop where
  | plain (key) : img.header.isEncrypted = false → PlainBody img key img.body
  | decrypted (key body) : img.header.isEncrypted = true → img.decryptedBody key = .ok body →
      PlainBody img (some key) body

theorem plainBody_eq_ok_iff {img : Image} {key : Option Secret.UnwrapKey} {body : Bytes} :
    plainBody img key = .ok body ↔ PlainBody img key body := by
  unfold plainBody
  constructor
  · intro h
    split at h
    · rename_i henc
      cases key with
      | none => cases h
      | some key => exact .decrypted key body henc (mapError_eq_ok_iff.mp h)
    · rename_i henc
      cases h
      exact .plain key (Bool.not_eq_true _ ▸ henc)
  · intro h
    cases h with
    | plain _ henc => rw [henc]; rfl
    | decrypted key _ henc hbody =>
        rw [if_pos henc]
        exact mapError_eq_ok_iff.mpr hbody

theorem compareHash_eq_ok_iff {expected actual : Bytes} {u : Unit} :
    compareHash expected actual = .ok u ↔ actual = expected := by
  unfold compareHash
  rw [then_eq_ok_iff]
  exact and_iff_left rfl

theorem checkHash_eq_ok_iff {img : Image} {initial : Option Bytes}
    {key : Option Secret.UnwrapKey} :
    checkHash img initial key = .ok () ↔
      ∃ body, PlainBody img key body ∧
        img.hash = .ok (Image.contentHashOf initial img.header img.pad body) := by
  simp only [checkHash, bind_eq_ok_iff, mapError_eq_ok_iff, plainBody_eq_ok_iff,
    compareHash_eq_ok_iff]
  constructor
  · rintro ⟨expected, hhash, body, hbody, rfl⟩
    exact ⟨body, hbody, hhash⟩
  · rintro ⟨body, hbody, hhash⟩
    exact ⟨_, hhash, body, hbody, rfl⟩

/-! ## Pairs of a key hash and a signature -/

/-- A key hash and, right behind it, a signature. -/
structure PairAt (tlvs : List Tlv) (place : Nat) (keyHash signature : Tlv) : Prop where
  first : tlvs[place]? = some keyHash
  second : tlvs[place + 1]? = some signature
  isKeyHash : keyHash.tag = Tlv.keyHashTag
  isSignature : Tlv.isSignature signature.tag = true

theorem PairAt.cons_iff {t : Tlv} {ts : List Tlv} {place : Nat} {a b : Tlv} :
    PairAt (t :: ts) (place + 1) a b ↔ PairAt ts place a b :=
  ⟨fun ⟨h₁, h₂, ha, hb⟩ => ⟨h₁, h₂, ha, hb⟩, fun ⟨h₁, h₂, ha, hb⟩ => ⟨h₁, h₂, ha, hb⟩⟩

/-- The walk finds exactly the pairs; the induction moves one value on, in step with the index. -/
theorem mem_pairsFrom {tlvs : List Tlv} {start : Nat} {p : Pair} :
    p ∈ pairsFrom start tlvs ↔
      ∃ place a b, PairAt tlvs place a b ∧ p = ⟨a.data, start + place + 1, b⟩ := by
  fun_induction pairsFrom start tlvs with
  | case1 i a b rest hpair ih =>
      rw [List.mem_cons, ih]
      constructor
      · rintro (rfl | ⟨place, a', b', h, rfl⟩)
        · exact ⟨0, a, b, ⟨rfl, rfl, hpair.1, hpair.2⟩, rfl⟩
        · exact ⟨place + 1, a', b', PairAt.cons_iff.mpr h, by rw [Nat.add_right_comm i 1]; rfl⟩
      · rintro ⟨place, a', b', h, rfl⟩
        cases place with
        | zero =>
            obtain rfl := Option.some.inj h.first
            obtain rfl := Option.some.inj h.second
            exact .inl rfl
        | succ place =>
            exact .inr ⟨place, a', b', PairAt.cons_iff.mp h, by rw [Nat.add_right_comm i 1]; rfl⟩
  | case2 i a b rest hpair ih =>
      rw [ih]
      constructor
      · rintro ⟨place, a', b', h, rfl⟩
        exact ⟨place + 1, a', b', PairAt.cons_iff.mpr h, by rw [Nat.add_right_comm i 1]; rfl⟩
      · rintro ⟨place, a', b', h, rfl⟩
        cases place with
        | zero =>
            obtain rfl := Option.some.inj h.first
            obtain rfl := Option.some.inj h.second
            exact absurd ⟨h.isKeyHash, h.isSignature⟩ hpair
        | succ place =>
            exact ⟨place, a', b', PairAt.cons_iff.mp h, by rw [Nat.add_right_comm i 1]; rfl⟩
  | case3 tlvs i hshort =>
      constructor
      · intro h
        cases h
      · rintro ⟨place, a, b, h, -⟩
        match tlvs with
        | [] => cases h.first
        | [_] => cases h.second
        | c :: d :: rest => exact absurd rfl (hshort c d rest)

/-! ## Looking a key hash up -/

/-- Whether a key has a given hash. -/
def hasHash (hash : Bytes) (key : PublicKey) : Bool := key.keyHash == hash

/-- A signature of a hash stands in a value of the right type for a key, and the key accepts it. -/
structure Accepts (key : PublicKey) (hash : Bytes) (signature : Tlv) : Prop where
  tag : key.signatureTag = .ok signature.tag
  verify : key.verify hash signature.data = .ok ()

/-- A key has its signatures in a value that is marked as one. -/
theorem isSignature_of_signatureTag {key : PublicKey} {tag : UInt8}
    (h : key.signatureTag = .ok tag) : Tlv.isSignature tag = true := by
  cases key with
  | rsa key =>
      change (if _ then _ else if _ then _ else _) = _ at h
      split at h
      · cases h
        rfl
      · split at h
        · cases h
          rfl
        · cases h
  | ec curve point =>
      cases curve with
      | p224 =>
          cases h
          rfl
      | p256 =>
          cases h
          rfl
  | ed25519 point =>
      cases h
      rfl

/-- Looking a hash up among keys that are numbered from `start` on.  The three ways to look it up,
for the key, for its place and for both, succeed together and agree on what they find. -/
theorem lookup_cases (keys : List PublicKey) (keyHash : Bytes) (start : Nat) :
    let numbered : List Named := (keys.zipIdx start).map fun (key, place) =>
      ⟨key, place, key.keyHash⟩
    (keys.find? (hasHash keyHash) = none ∧ keys.findIdx? (hasHash keyHash) = none ∧
        numbered.find? (fun k => k.hash == keyHash) = none) ∨
      ∃ key place, keys.find? (hasHash keyHash) = some key ∧
        keys.findIdx? (hasHash keyHash) = some place ∧
        numbered.find? (fun k => k.hash == keyHash) = some ⟨key, start + place, key.keyHash⟩ := by
  induction keys generalizing start with
  | nil => exact .inl ⟨rfl, rfl, rfl⟩
  | cons key keys ih =>
      dsimp only
      rw [List.zipIdx_cons, List.map_cons]
      simp only [List.find?_cons, List.findIdx?_cons]
      cases hkey : hasHash keyHash key with
      | true =>
          have hfound : (key.keyHash == keyHash) = true := hkey
          rw [hfound]
          exact .inr ⟨key, 0, rfl, rfl, rfl⟩
      | false =>
          have hother : (key.keyHash == keyHash) = false := hkey
          rw [hother]
          obtain ⟨hkeys, hplace, hnumbered⟩ | ⟨key', place, hkeys, hplace, hnumbered⟩ :=
            ih (start + 1)
          · exact .inl ⟨hkeys, by rw [hplace]; rfl, hnumbered⟩
          · refine .inr ⟨key', place + 1, hkeys, by rw [hplace]; rfl, ?_⟩
            rw [hnumbered, Nat.add_right_comm, Nat.add_assoc]

theorem checkPair_eq_ok_iff {hash : Bytes} {keys : List PublicKey} {p : Pair}
    {found : Option Nat} :
    checkPair hash (named keys) p = .ok found ↔
      keys.findIdx? (hasHash p.keyHash) = found ∧
        ∀ key, keys.find? (hasHash p.keyHash) = some key → Accepts key hash p.signature := by
  unfold checkPair named
  obtain ⟨hkey, hplace, hnumbered⟩ | ⟨key, place, hkey, hplace, hnumbered⟩ :=
    lookup_cases keys p.keyHash 0
  · rw [hnumbered, hkey, hplace]
    constructor
    · intro h
      cases h
      exact ⟨rfl, fun _ h => nomatch h⟩
    · rintro ⟨rfl, -⟩
      rfl
  · rw [hnumbered, hkey, hplace, Nat.zero_add]
    simp only [bind_eq_ok_iff, mapError_eq_ok_iff]
    constructor
    · rintro ⟨tag, htag, h⟩
      split at h
      · cases h
      · rename_i heq
        obtain ⟨_, hverify, h⟩ := bind_eq_ok_iff.mp h
        cases h
        refine ⟨rfl, fun key' hkey' => ?_⟩
        obtain rfl := Option.some.inj hkey'
        exact ⟨Decidable.not_not.mp heq ▸ htag, mapError_eq_ok_iff.mp hverify⟩
    · rintro ⟨rfl, haccepts⟩
      obtain ⟨htag, hverify⟩ := haccepts key rfl
      refine ⟨_, htag, ?_⟩
      rw [if_neg (not_not_intro rfl)]
      exact bind_eq_ok_iff.mpr ⟨(), mapError_eq_ok_iff.mpr hverify, rfl⟩

/-! ## The places of the signers -/

theorem nodup_eraseDups {α : Type} [BEq α] [LawfulBEq α] (entries : List α) :
    entries.eraseDups.Nodup := by
  match entries with
  | [] => exact List.nodup_nil
  | a :: rest =>
      have hlen : (rest.filter fun b => !b == a).length < rest.length + 1 :=
        Nat.lt_succ_of_le (List.length_filter_le _ _)
      rw [List.eraseDups_cons, List.nodup_cons, List.mem_eraseDups]
      exact ⟨by simp, nodup_eraseDups _⟩
termination_by entries.length

theorem mem_ascending {places : List Nat} {i : Nat} : i ∈ ascending places ↔ i ∈ places := by
  rw [ascending, List.mem_mergeSort, List.mem_eraseDups]

/-- The places in order are all numbers below `n` when they are these numbers in any order. -/
theorem ascending_eq_range {places : List Nat} {n : Nat} (h : ∀ i, i ∈ places ↔ i < n) :
    ascending places = List.range n := by
  have hnodup : (ascending places).Nodup :=
    (List.mergeSort_perm _ _).symm.nodup (nodup_eraseDups places)
  have hperm : (ascending places).Perm (List.range n) := by
    rw [List.perm_ext_iff_of_nodup hnodup List.nodup_range]
    intro i
    rw [mem_ascending, h, List.mem_range]
  have hsorted : (ascending places).Pairwise (· ≤ ·) := by
    have hle := @List.pairwise_mergeSort Nat (fun a b => decide (a ≤ b))
      (by simp only [decide_eq_true_eq]; intro a b c; exact Nat.le_trans)
      (by simp only [Bool.or_eq_true, decide_eq_true_eq]; exact Nat.le_total)
      places.eraseDups
    exact hle.imp of_decide_eq_true
  exact hperm.eq_of_pairwise (fun _ _ _ _ => Nat.le_antisymm) hsorted List.pairwise_le_range

theorem forall₂_checkPair_iff {hash : Bytes} {keys : List PublicKey} {pairs : List Pair}
    {found : List (Option Nat)} :
    List.Forall₂ (fun p i => checkPair hash (named keys) p = .ok i) pairs found ↔
      pairs.map (fun p => keys.findIdx? (hasHash p.keyHash)) = found ∧
        ∀ p ∈ pairs, ∀ key, keys.find? (hasHash p.keyHash) = some key →
          Accepts key hash p.signature := by
  induction pairs generalizing found with
  | nil =>
      rw [List.forall₂_nil_left_iff]
      exact ⟨fun h => ⟨h.symm, fun _ hp => absurd hp List.not_mem_nil⟩, fun h => h.1.symm⟩
  | cons p pairs ih =>
      rw [List.forall₂_cons_left_iff, List.map_cons, List.forall_mem_cons]
      constructor
      · rintro ⟨i, rest, hp, hrest, rfl⟩
        obtain ⟨rfl, haccepts⟩ := checkPair_eq_ok_iff.mp hp
        obtain ⟨rfl, hall⟩ := ih.mp hrest
        exact ⟨rfl, haccepts, hall⟩
      · rintro ⟨rfl, haccepts, hall⟩
        exact ⟨_, _, checkPair_eq_ok_iff.mpr ⟨rfl, haccepts⟩, ih.mpr ⟨rfl, hall⟩, rfl⟩

/-- The places of the keys that the key hashes of an area name. -/
def namedPlaces (keys : List PublicKey) (tlvs : List Tlv) : List Nat :=
  (pairsFrom 0 tlvs).filterMap fun p => keys.findIdx? (hasHash p.keyHash)

theorem mem_namedPlaces {keys : List PublicKey} {tlvs : List Tlv} {i : Nat} :
    i ∈ namedPlaces keys tlvs ↔
      ∃ place a b, PairAt tlvs place a b ∧ keys.findIdx? (hasHash a.data) = some i := by
  simp only [namedPlaces, List.mem_filterMap, mem_pairsFrom]
  constructor
  · rintro ⟨_, ⟨place, a, b, h, rfl⟩, hi⟩
    exact ⟨place, a, b, h, hi⟩
  · rintro ⟨place, a, b, h, hi⟩
    exact ⟨_, ⟨place, a, b, h, rfl⟩, hi⟩

/-- Every pair of an area whose hash names a key is accepted by the first key with that hash. -/
def PairsAccepted (keys : List PublicKey) (hash : Bytes) (tlvs : List Tlv) : Prop :=
  ∀ place a b, PairAt tlvs place a b →
    ∀ key, keys.find? (hasHash a.data) = some key → Accepts key hash b

theorem checkSignatures_eq_ok_iff {img : Image} {keys : List PublicKey} {places : List Nat} :
    checkSignatures img keys = .ok places ↔
      ∃ hash, img.hash = .ok hash ∧ PairsAccepted keys hash img.tlvs ∧
        ascending (namedPlaces keys img.tlvs) = places := by
  have hpairs : ∀ hash,
      (∀ p ∈ pairsFrom 0 img.tlvs, ∀ key, keys.find? (hasHash p.keyHash) = some key →
        Accepts key hash p.signature) ↔ PairsAccepted keys hash img.tlvs := by
    intro hash
    constructor
    · intro h place a b hpair key hkey
      exact h _ (mem_pairsFrom.mpr ⟨place, a, b, hpair, rfl⟩) key hkey
    · intro h p hp key hkey
      obtain ⟨place, a, b, hpair, rfl⟩ := mem_pairsFrom.mp hp
      exact h place a b hpair key hkey
  simp only [checkSignatures, bind_eq_ok_iff, mapError_eq_ok_iff, mapM_eq_ok_iff,
    forall₂_checkPair_iff, hpairs]
  constructor
  · rintro ⟨hash, hhash, _, ⟨rfl, haccepted⟩, h⟩
    cases h
    refine ⟨hash, hhash, haccepted, ?_⟩
    rw [List.reduceOption, List.filterMap_map]
    rfl
  · rintro ⟨hash, hhash, haccepted, rfl⟩
    refine ⟨hash, hhash, _, ⟨rfl, haccepted⟩, ?_⟩
    rw [List.reduceOption, List.filterMap_map]
    rfl

/-- A key has signed: some pair carries its hash, and it accepts the signature of that pair. -/
def SignedBy (key : PublicKey) (hash : Bytes) (tlvs : List Tlv) : Prop :=
  ∃ place a b, PairAt tlvs place a b ∧ a.data = key.keyHash ∧ Accepts key hash b

/-- A key at a place that was found has signed, because a pair that names the first key with a hash
is accepted by that very key. -/
theorem signedBy_of_mem_namedPlaces {keys : List PublicKey} {hash : Bytes} {tlvs : List Tlv}
    (haccepted : PairsAccepted keys hash tlvs) {i : Nat} {key : PublicKey}
    (hkey : keys[i]? = some key) (hi : i ∈ namedPlaces keys tlvs) : SignedBy key hash tlvs := by
  obtain ⟨place, a, b, hpair, hplace⟩ := mem_namedPlaces.mp hi
  have hfirst : keys.find? (hasHash a.data) = some key := by
    rw [List.find?_eq_bind_findIdx?_getElem?, hplace]
    exact hkey
  have hhash : hasHash a.data key = true := List.find?_some hfirst
  exact ⟨place, a, b, hpair, (eq_of_beq hhash).symm, haccepted place a b hpair key hfirst⟩

end Firmware.Verify
