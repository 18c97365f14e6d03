import Firmware.Proofs.Image.Structure
import Firmware.Proofs.Tlv

/-!
# The grammar of a TLV area

The rules on an area are local tests: each key hash is compared with what stands behind it, each
signature with what stands before it, the wrapped secrets are counted and their places compared with
the last one.  Together they describe a language.  An area is `Grammatical` when it is

    content hash, blocks, at most one wrapped secret

with pairwise distinct key hashes, where a `Block` is a key hash with its signature, or one value of
another kind.  `violations_eq_nil_iff_grammatical` : the areas without a breach are exactly these.

Read from the front, an area gives away its blocks one by one.  What is carried along is that the
value before the rest is no key hash, so that a signature at the front of the rest is a breach
(`blocks_of_pairViolations`).
-/

namespace Firmware.Image

/-! ## The grammar -/

/-- A key hash with its signature, or one value that is neither of them and no wrapped secret. -/
inductive Block : List Tlv → Prop
  | signed {keyHash signature : Tlv} : keyHash.tag = Tlv.keyHashTag →
      Tlv.isSignature signature.tag = true → Block [keyHash, signature]
  | other {t : Tlv} : t.tag ≠ Tlv.keyHashTag → Tlv.isSignature t.tag = false →
      Tlv.isSecret t.tag = false → Block [t]

/-- Blocks one after the other, and perhaps a wrapped secret behind them. -/
def Blocks (tlvs : List Tlv) : Prop :=
  ∃ (blocks : List (List Tlv)) (secret : Option Tlv),
    tlvs = blocks.flatten ++ secret.toList ∧ (∀ b ∈ blocks, Block b) ∧
      ∀ t ∈ secret, Tlv.isSecret t.tag = true

/-- The areas that a boot loader accepts. -/
structure Grammatical (tlvs : List Tlv) : Prop where
  /-- A content hash stands in front of the blocks. -/
  shape : ∃ hash rest, tlvs = hash :: rest ∧ hash.tag = Tlv.sha256Tag ∧ Blocks rest
  /-- No two key hashes are equal. -/
  distinct : tlvs.Pairwise fun a b =>
    a.tag = Tlv.keyHashTag → b.tag = Tlv.keyHashTag → a.data ≠ b.data

namespace Blocks

variable {b tlvs : List Tlv} {t : Tlv}

theorem nil : Blocks [] := ⟨[], none, rfl, nofun, nofun⟩

theorem secret (h : Tlv.isSecret t.tag = true) : Blocks [t] := by
  refine ⟨[], some t, rfl, nofun, ?_⟩
  rintro _ ⟨⟩
  exact h

theorem append (hb : Block b) (h : Blocks tlvs) : Blocks (b ++ tlvs) := by
  obtain ⟨blocks, secret, rfl, hblocks, hsecret⟩ := h
  exact ⟨b :: blocks, secret, by rw [List.flatten_cons, List.append_assoc],
    List.forall_mem_cons.mpr ⟨hb, hblocks⟩, hsecret⟩

end Blocks

/-! ## Wrapped secrets -/

section Secrets

variable {tlvs : List Tlv}

theorem mem_secretIndices_iff {i : Nat} :
    i ∈ secretIndices tlvs ↔ ∃ t, tlvs[i]? = some t ∧ Tlv.isSecret t.tag = true := by
  unfold secretIndices
  rw [List.mem_filterMap]
  constructor
  · rintro ⟨⟨t, j⟩, hmem, h⟩
    change (if Tlv.isSecret t.tag then some j else none) = some i at h
    split at h
    · rename_i hsecret
      obtain rfl := Option.some.inj h
      exact ⟨t, List.mem_zipIdx_iff_getElem?.mp hmem, hsecret⟩
    · cases h
  · rintro ⟨t, ht, hsecret⟩
    exact ⟨(t, i), List.mem_zipIdx_iff_getElem?.mpr ht, if_pos hsecret⟩

theorem secretIndices_eq_nil_iff :
    secretIndices tlvs = [] ↔ ∀ t ∈ tlvs, Tlv.isSecret t.tag = false := by
  rw [List.eq_nil_iff_forall_not_mem]
  constructor
  · intro h t ht
    obtain ⟨i, hi⟩ := List.mem_iff_getElem?.mp ht
    by_contra hsecret
    exact h i (mem_secretIndices_iff.mpr ⟨t, hi, eq_true_of_ne_false hsecret⟩)
  · intro h i hi
    obtain ⟨t, ht, hsecret⟩ := mem_secretIndices_iff.mp hi
    rw [h t (List.mem_of_getElem? ht)] at hsecret
    cases hsecret

theorem secretIndices_append_singleton (tlvs : List Tlv) (t : Tlv) :
    secretIndices (tlvs ++ [t]) =
      secretIndices tlvs ++ if Tlv.isSecret t.tag then [tlvs.length] else [] := by
  unfold secretIndices
  rw [List.zipIdx_append, List.filterMap_append, List.zipIdx_singleton, Nat.zero_add]
  cases hsecret : Tlv.isSecret t.tag with
  | true => simp [hsecret]
  | false => simp [hsecret]

/-- A wrapped secret may stand at the end only.  That there is no more than one follows. -/
theorem secretViolations_eq_nil_iff :
    secretViolations tlvs = [] ↔ ∀ t ∈ tlvs.dropLast, Tlv.isSecret t.tag = false := by
  rcases List.eq_nil_or_concat' tlvs with rfl | ⟨before, last, rfl⟩
  · exact ⟨fun _ => nofun, fun _ => rfl⟩
  have hlength : (before ++ [last]).length = before.length + 1 := List.length_append
  rw [List.dropLast_concat, ← secretIndices_eq_nil_iff]
  unfold secretViolations
  rw [List.append_eq_nil_iff, List.map_eq_nil_iff, List.filter_eq_nil_iff,
    secretIndices_append_singleton, hlength]
  constructor
  · rintro ⟨-, hall⟩
    rw [List.eq_nil_iff_forall_not_mem]
    intro i hi
    obtain ⟨t, ht, -⟩ := mem_secretIndices_iff.mp hi
    obtain ⟨hlt, -⟩ := List.getElem?_eq_some_iff.mp ht
    have hplace := hall i (List.mem_append_left _ hi)
    rw [decide_eq_true_eq] at hplace
    omega
  · intro h
    rw [h, List.nil_append]
    split
    · refine ⟨rfl, ?_⟩
      rw [List.forall_mem_singleton, decide_eq_true_eq, not_not]
    · exact ⟨rfl, nofun⟩

end Secrets

/-! ## Pairs -/

section Pairs

variable {index : Nat} {before : Option UInt8} {tlvs behind : List Tlv} {t : Tlv}

/-- A value keeps the rules when, being a key hash, it has a signature behind it and, being a
signature, a key hash before it. -/
theorem pairViolation_eq_nil_iff :
    pairViolation index before t behind = [] ↔
      (t.tag = Tlv.keyHashTag → ∃ next ∈ behind.head?, Tlv.isSignature next.tag = true) ∧
        (Tlv.isSignature t.tag = true → before = some Tlv.keyHashTag) := by
  unfold pairViolation
  by_cases hkey : t.tag = Tlv.keyHashTag
  · have hkind : Tlv.isSignature t.tag ≠ true := fun h => (Tlv.tags_of_isSignature h).1 hkey
    rw [if_pos hkey]
    cases behind with
    | nil => simp [hkey]
    | cons next behind => simp [hkey, hkey ▸ hkind]
  · rw [if_neg hkey]
    simp [hkey]

/-- Behind a value that is no key hash, what keeps the rules is made of blocks. -/
theorem blocks_of_pairViolations : ∀ {tlvs : List Tlv} {index : Nat} {before : Option UInt8},
    before ≠ some Tlv.keyHashTag → pairViolations index before tlvs = [] →
      (∀ t ∈ tlvs.dropLast, Tlv.isSecret t.tag = false) → Blocks tlvs
  | [], _, _, _, _, _ => .nil
  | t :: rest, index, before, hbefore, hpairs, hsecrets => by
      rw [pairViolations, List.append_eq_nil_iff, pairViolation_eq_nil_iff] at hpairs
      obtain ⟨⟨hnext, hsignature⟩, hrest⟩ := hpairs
      have hkind : Tlv.isSignature t.tag = false :=
        eq_false_of_ne_true fun h => hbefore (hsignature h)
      by_cases hkey : t.tag = Tlv.keyHashTag
      · obtain ⟨next, hhead, hsigned⟩ := hnext hkey
        cases rest with
        | nil => cases hhead
        | cons u rest =>
            obtain rfl : u = next := Option.some.inj hhead
            rw [pairViolations, List.append_eq_nil_iff] at hrest
            have hother : some u.tag ≠ some Tlv.keyHashTag := fun h =>
              (Tlv.tags_of_isSignature hsigned).1 (Option.some.inj h)
            have hinside : rest.dropLast ⊆ (t :: u :: rest).dropLast := by
              cases rest with
              | nil => exact List.nil_subset _
              | cons v rest => exact List.subset_cons_of_subset _ (List.subset_cons_self _ _)
            exact .append (.signed hkey hsigned) (blocks_of_pairViolations hother hrest.2
              fun v hv => hsecrets v (hinside hv))
      · have hother : some t.tag ≠ some Tlv.keyHashTag := fun h => hkey (Option.some.inj h)
        cases rest with
        | nil =>
            cases hsecret : Tlv.isSecret t.tag with
            | true => exact .secret hsecret
            | false => exact .append (.other hkey hkind hsecret) .nil
        | cons u rest =>
            rw [List.dropLast_cons_cons, List.forall_mem_cons] at hsecrets
            exact .append (.other hkey hkind hsecrets.1)
              (blocks_of_pairViolations hother hrest hsecrets.2)

/-- A block keeps the rules by itself, whatever stands around it. -/
theorem Block.pairViolations_append {b : List Tlv} (hb : Block b)
    (h : ∀ index before, pairViolations index before tlvs = []) (index : Nat)
    (before : Option UInt8) : pairViolations index before (b ++ tlvs) = [] := by
  cases hb with
  | @signed keyHash signature hkey hsigned =>
      have hfirst : pairViolation index before keyHash (signature :: tlvs) = [] := by
        refine pairViolation_eq_nil_iff.mpr ⟨fun _ => ⟨signature, rfl, hsigned⟩, fun hkind => ?_⟩
        exact absurd hkey (Tlv.tags_of_isSignature hkind).1
      have hsecond : pairViolation (index + 1) (some keyHash.tag) signature tlvs = [] := by
        refine pairViolation_eq_nil_iff.mpr ⟨fun hother => ?_, fun _ => congrArg some hkey⟩
        exact absurd hother (Tlv.tags_of_isSignature hsigned).1
      show pairViolations index before (keyHash :: signature :: tlvs) = []
      rw [pairViolations, pairViolations, hfirst, hsecond, h]
      rfl
  | @other t hkey hkind _ =>
      have hfirst : pairViolation index before t tlvs = [] := by
        refine pairViolation_eq_nil_iff.mpr ⟨fun hother => absurd hother hkey, fun hsigned => ?_⟩
        rw [hkind] at hsigned
        cases hsigned
      show pairViolations index before (t :: tlvs) = []
      rw [pairViolations, hfirst, h]
      rfl

theorem pairViolations_of_secret (h : Tlv.isSecret t.tag = true) (index : Nat)
    (before : Option UInt8) : pairViolations index before [t] = [] := by
  have hfirst : pairViolation index before t [] = [] := by
    refine pairViolation_eq_nil_iff.mpr ⟨fun hkey => ?_, fun hsigned => ?_⟩
    · exact absurd hkey (Tlv.tags_of_isSecret h).1
    · rw [(Tlv.tags_of_isSignature hsigned).2.2] at h
      cases h
  rw [pairViolations, hfirst]
  rfl

theorem Blocks.pairViolations_eq_nil (h : Blocks tlvs) (index : Nat) (before : Option UInt8) :
    pairViolations index before tlvs = [] := by
  obtain ⟨blocks, secret, rfl, hblocks, hsecret⟩ := h
  induction blocks generalizing index before with
  | nil =>
      cases secret with
      | none => rfl
      | some t => exact pairViolations_of_secret (hsecret t rfl) index before
  | cons b blocks ih =>
      rw [List.forall_mem_cons] at hblocks
      rw [List.flatten_cons, List.append_assoc]
      exact hblocks.1.pairViolations_append (fun i c => ih i c hblocks.2) index before

theorem Block.isSecret_eq_false {b : List Tlv} (hb : Block b) :
    ∀ t ∈ b, Tlv.isSecret t.tag = false := by
  cases hb with
  | signed hkey hsigned =>
      rw [List.forall_mem_cons, List.forall_mem_singleton, hkey]
      exact ⟨rfl, (Tlv.tags_of_isSignature hsigned).2.2⟩
  | other _ _ hsecret =>
      rw [List.forall_mem_singleton]
      exact hsecret

theorem Blocks.isSecret_eq_false (h : Blocks tlvs) :
    ∀ t ∈ tlvs.dropLast, Tlv.isSecret t.tag = false := by
  obtain ⟨blocks, secret, rfl, hblocks, -⟩ := h
  have hinside : ∀ t ∈ blocks.flatten, Tlv.isSecret t.tag = false := by
    intro t ht
    obtain ⟨b, hb, ht⟩ := List.mem_flatten.mp ht
    exact (hblocks b hb).isSecret_eq_false t ht
  intro t ht
  cases secret with
  | none =>
      rw [Option.toList_none, List.append_nil] at ht
      exact hinside t (List.dropLast_subset _ ht)
  | some last =>
      rw [Option.toList_some, List.dropLast_concat] at ht
      exact hinside t ht

end Pairs

/-! ## Areas -/

variable {tlvs : List Tlv}

theorem nodup_keyHashes_iff :
    (keyHashes tlvs).Nodup ↔ tlvs.Pairwise fun a b =>
      a.tag = Tlv.keyHashTag → b.tag = Tlv.keyHashTag → a.data ≠ b.data := by
  unfold keyHashes
  rw [List.Nodup, List.pairwise_map, List.pairwise_filter]
  simp only [decide_eq_true_eq]

/-- Behind the content hash, the local rules are kept by the sequences of blocks. -/
theorem shape_iff (hash : Tlv) (rest : List Tlv) :
    headViolations (hash :: rest) = [] ∧ pairViolations 0 none (hash :: rest) = [] ∧
        secretViolations (hash :: rest) = [] ↔
      hash.tag = Tlv.sha256Tag ∧ Blocks rest := by
  have hother : some Tlv.sha256Tag ≠ some Tlv.keyHashTag := by decide
  have hblock (htag : hash.tag = Tlv.sha256Tag) : Block [hash] :=
    .other (by rw [htag]; decide) (by rw [htag]; rfl) (by rw [htag]; rfl)
  have hhead : headViolations (hash :: rest) = [] ↔ hash.tag = Tlv.sha256Tag := by
    simp [headViolations]
  rw [hhead, secretViolations_eq_nil_iff]
  refine and_congr_right fun htag => ⟨?_, fun h => ?_⟩
  · rintro ⟨hpairs, hsecrets⟩
    rw [pairViolations, List.append_eq_nil_iff, htag] at hpairs
    refine blocks_of_pairViolations hother hpairs.2 fun t ht => ?_
    cases rest with
    | nil => cases ht
    | cons u rest => exact hsecrets t (List.mem_cons_of_mem _ ht)
  · have harea : Blocks (hash :: rest) := .append (hblock htag) h
    exact ⟨harea.pairViolations_eq_nil 0 none, harea.isSecret_eq_false⟩

/-- The rules accept exactly the grammar. -/
theorem violations_eq_nil_iff_grammatical (img : Image) :
    violations img.tlvs = [] ↔ Grammatical img.tlvs := by
  generalize img.tlvs = tlvs
  unfold violations
  rw [List.append_eq_nil_iff, List.append_eq_nil_iff, List.append_eq_nil_iff,
    duplicateViolations_eq_nil_iff, nodup_keyHashes_iff]
  cases tlvs with
  | nil =>
      constructor
      · rintro ⟨⟨⟨hnone, -⟩, -⟩, -⟩
        cases hnone
      · rintro ⟨⟨_, _, hcons, -⟩, -⟩
        cases hcons
  | cons hash rest =>
      have hshape := shape_iff hash rest
      constructor
      · rintro ⟨⟨⟨hhead, hpairs⟩, hdistinct⟩, hsecrets⟩
        obtain ⟨htag, hblocks⟩ := hshape.mp ⟨hhead, hpairs, hsecrets⟩
        exact ⟨⟨hash, rest, rfl, htag, hblocks⟩, hdistinct⟩
      · rintro ⟨⟨_, _, hcons, htag, hblocks⟩, hdistinct⟩
        obtain ⟨rfl, rfl⟩ := List.cons.inj hcons
        obtain ⟨hhead, hpairs, hsecrets⟩ := hshape.mpr ⟨htag, hblocks⟩
        exact ⟨⟨⟨hhead, hpairs⟩, hdistinct⟩, hsecrets⟩

end Firmware.Image
