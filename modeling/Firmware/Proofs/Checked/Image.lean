import Firmware.Checked.Image
import Firmware.Proofs.Checked.Basic
import Firmware.Proofs.Image.Format
import Firmware.Proofs.Legacy.Format

/-!
# Images without a fault

Each of the functions on images with checked accesses meets no fault, whatever it is given, and
comes to what the function on lists comes to.
-/

namespace Firmware.Checked

/-! ## Content -/

theorem inBounds_splitContent {headerSize : UInt16} {bodySize : UInt32} {available : Nat}
    {behind : Bytes} (h : available = Content.headerLength + behind.length) :
    InBounds (splitContent headerSize bodySize available behind)
      (Content.split headerSize bodySize available behind) := by
  rw [splitContent, Content.split]
  split
  · exact .throw _
  · rename_i hlarge
    have hsub := sub_eq_ok (Nat.le_of_not_lt hlarge)
    split
    · rename_i hshort
      have hnone : Bytes.splitAt? (headerSize.toNat - Content.headerLength) behind = none :=
        Bytes.splitAt?_eq_none_iff.mpr (by omega)
      rw [hnone]
      exact .throw _
    · rename_i hfits
      have hpad : headerSize.toNat - Content.headerLength ≤ behind.length := by omega
      rw [Bytes.splitAt?_of_le hpad]
      refine .bind_ok (.access hsub) (.bind_ok (.access (splitAt_eq_ok hpad)) ?_)
      dsimp only
      split
      · rename_i hshort
        rw [Bytes.splitAt?_eq_none_iff.mpr hshort]
        exact .throw _
      · rename_i hbody
        rw [Bytes.splitAt?_of_le (Nat.le_of_not_lt hbody)]
        exact .bind_ok (.access (splitAt_eq_ok (Nat.le_of_not_lt hbody))) (.pure _)

theorem inBounds_checkContent (headerSize : UInt16) (bodySize : UInt32) (pad body : Bytes) :
    InBounds (checkContent headerSize bodySize pad body)
      (Content.check headerSize bodySize pad body) := by
  rw [checkContent, Content.check]
  split
  · exact .throw _
  · rename_i hlarge
    refine .bind_ok (.access (sub_eq_ok (Nat.le_of_not_lt hlarge))) ?_
    split
    · exact .throw _
    · split
      · exact .throw _
      · exact .pure ()

/-- A header has the size of the buffer that it is copied to. -/
theorem contentHash_eq_ok {initial : Option Bytes} {header pad body : Bytes}
    (h : header.length = Content.headerLength) :
    contentHash initial header pad body =
      .ok (Crypto.sha256 (Content.hashed initial header pad body)) := by
  have hsize : (Bytes.zeros Content.headerLength).length = header.length := by
    rw [Bytes.length_zeros, h]
  rw [contentHash, copy_eq_ok hsize]
  rfl

/-! ## Values -/

theorem tlvKind_header?_eq_some_iff {bs behind : Bytes} {len : Nat} {value : Bytes → Tlv} :
    tlvKind.header? bs = some (len, value, behind) ↔ ∃ tag pad low high,
      bs = tag :: pad :: low :: high :: behind ∧ len = Bytes.toNatLE [low, high] ∧
        value = fun data => ⟨tag, pad, data⟩ := by
  constructor
  · intro h
    match bs, h with
    | tag :: pad :: low :: high :: rest, h =>
        obtain ⟨rfl, rfl, rfl⟩ := Option.some.inj h
        exact ⟨tag, pad, low, high, rfl, rfl, rfl⟩
  · rintro ⟨tag, pad, low, high, rfl, rfl, rfl⟩
    rfl

theorem reads_tlvKind : Reads tlvKind Tlv.readFrom where
  header := by
    intro bs len value behind h
    obtain ⟨tag, pad, low, high, rfl, -, -⟩ := tlvKind_header?_eq_some_iff.mp h
    exact ⟨rfl, Nat.add_comm _ 4⟩
  nil := Tlv.readFrom_nil
  headerTruncated := by
    intro index offset bs hne h
    refine Tlv.readFrom_of_error hne ?_
    match bs, h with
    | [], _ => rfl
    | [_], _ => rfl
    | [_, _], _ => rfl
    | [_, _, _], _ => rfl
  dataTruncated := by
    intro index offset bs len value behind h hshort
    obtain ⟨tag, pad, low, high, rfl, rfl, -⟩ := tlvKind_header?_eq_some_iff.mp h
    refine Tlv.readFrom_of_error (List.cons_ne_nil _ _) ?_
    rw [Tlv.read, Bytes.splitAt?_eq_none_iff.mpr hshort]
    rfl
  cons := by
    intro index offset bs len value behind h hlen
    obtain ⟨tag, pad, low, high, rfl, rfl, rfl⟩ := tlvKind_header?_eq_some_iff.mp h
    have hread : Tlv.read index offset (tag :: pad :: low :: high :: behind) =
        .ok (⟨tag, pad, behind.take (Bytes.toNatLE [low, high])⟩,
          behind.drop (Bytes.toNatLE [low, high])) := by
      rw [Tlv.read, Bytes.splitAt?_of_le hlen]
    have hsize : Tlv.size ⟨tag, pad, behind.take (Bytes.toNatLE [low, high])⟩ =
        tlvKind.headerSize + Bytes.toNatLE [low, high] := by
      rw [Tlv.size, Tlv.sizeFor, List.length_take_of_le hlen]
      rfl
    rw [Tlv.readFrom_cons hread, hsize]
    generalize Tlv.readFrom (index + 1) _ _ = rest
    cases rest with
    | error e => rfl
    | ok ts => rfl

/-! ## Boot images -/

theorem inBounds_readTlvs (bs : Bytes) : InBounds (readTlvs bs) (Image.readTlvs bs) := by
  rw [readTlvs, Image.readTlvs]
  cases Image.readTrailer? bs with
  | none => exact .throw _
  | some found =>
      obtain ⟨magic, total, area⟩ := found
      dsimp only
      split
      · exact .throw _
      · rw [Tlv.readAll]
        refine (InBounds.readAll reads_tlvKind area).adapt_bind ?_ ?_
        · intro e he
          rw [he]
        · intro tlvs htlvs
          rw [htlvs]
          dsimp only
          split
          · exact .throw _
          · rename_i htotal
            rw [if_pos (not_not.mp htotal)]
            exact .pure tlvs

theorem inBounds_parseImage (data : Bytes) : InBounds (parseImage data) (Image.parse data) := by
  rw [parseImage, Image.parse]
  cases hread : Image.Header.read? data with
  | none => exact .throw _
  | some found =>
      obtain ⟨found, header, behind⟩ := found
      dsimp only
      split
      · exact .throw _
      · rename_i hmagic
        obtain rfl := not_not.mp hmagic
        have hlength : data.length = Content.headerLength + behind.length := by
          rw [Image.Header.read?_eq_some_iff.mp hread, List.length_append,
            Image.Header.length_toBytes]
        refine (inBounds_splitContent hlength).adapt_bind ?_ ?_
        · intro e he
          rw [he]
        · intro pieces hpieces
          obtain ⟨pad, body, behind⟩ := pieces
          rw [hpieces]
          dsimp only
          refine (inBounds_readTlvs behind).bind_cases ?_ ?_
          · intro e he
            rw [he]
          · intro tlvs htlvs
            rw [htlvs]
            exact .pure _

/-- Writing an image that passes the check of its sizes subtracts nothing that is too large, and
what does not pass it is refused before. -/
theorem inBounds_imageToBytes (img : Image) : InBounds (imageToBytes img) img.toBytes := by
  rw [imageToBytes]
  refine (inBounds_checkContent _ _ _ _).adapt_bind ?_ ?_
  · intro e he
    have hvalid : img.validate = .error (.content e) := by rw [Image.validate, he]
    rw [Image.toBytes, Image.script, hvalid]
    rfl
  · intro _ hcheck
    split
    · rename_i hlarge
      have hvalid : img.validate = .error (.tlvTotalTooLarge img.tlvTotalSize) := by
        rw [Image.validate, hcheck]
        exact if_neg (Nat.not_lt_of_le hlarge)
      rw [Image.toBytes, Image.script, hvalid]
      exact .throw _
    · rename_i hsmall
      have hvalid : img.validate = .ok () := by
        rw [Image.validate, hcheck]
        exact if_pos (Nat.lt_of_not_le hsmall)
      rw [Image.toBytes, Image.script, hvalid]
      show InBounds _ (Script.toBytes (Script.prepend _ _))
      rw [Script.toBytes_prepend_map]
      refine (InBounds.ofResult _).adapt_bind ?_ ?_
      · intro e he
        rw [he]
        rfl
      · intro area harea
        have hall : img.header.toBytes ++ img.pad ++ img.body ++ img.trailerBytes ++ area =
            [(Image.Field.content .header, img.header.toBytes), (.content .headerPadding, img.pad),
              (.content .body, img.body), (.trailer, img.trailerBytes)].flatMap (·.2) ++ area := by
          simp only [List.flatMap_cons, List.flatMap_nil, List.append_assoc, List.append_nil]
        rw [harea, hall]
        exact .pure _

/-! ## The structure rules -/

/-- Only a value that is not the first one has one before it. -/
theorem followsKeyHash_eq_ok (before behind : List Tlv) :
    followsKeyHash (before ++ behind) before.length =
      .ok (before.getLast?.map (·.tag) == some Tlv.keyHashTag) := by
  rcases List.eq_nil_or_concat before with rfl | ⟨front, last, rfl⟩
  · rfl
  · have hlast : (front ++ [last] ++ behind)[front.length]? = some last := by
      rw [← List.append_cons, getElem?_append_length]
    rw [List.concat_eq_append, List.length_append, List.length_singleton, followsKeyHash,
      index_eq_ok hlast, List.getLast?_concat]
    rfl

theorem pairViolation_eq_ok (before : List Tlv) (t : Tlv) (behind : List Tlv) :
    pairViolation (before ++ t :: behind) t before.length =
      .ok (Image.pairViolation before.length (before.getLast?.map (·.tag)) t behind) := by
  unfold pairViolation Image.pairViolation
  split
  · have hnext : (before ++ t :: behind)[before.length + 1]? = behind[0]? := by
      rw [List.getElem?_append_right (Nat.le_succ _), Nat.succ_sub (Nat.le_refl _), Nat.sub_self]
      rfl
    rw [hnext]
    cases behind with
    | nil => rfl
    | cons next behind => rfl
  · rw [followsKeyHash_eq_ok]
    cases Tlv.isSignature t.tag with
    | false => rfl
    | true =>
        show Except.ok (if (_ == _) = true then _ else _) =
          Except.ok (if (_ != _) = true then _ else _)
        rw [bne]
        cases before.getLast?.map (·.tag) == some Tlv.keyHashTag with
        | false => rfl
        | true => rfl

theorem flatten_map_ite {α β : Type} (p : α → Prop) [DecidablePred p] (f : α → β) (as : List α) :
    (as.map fun a => if p a then [f a] else []).flatten = (as.filter fun a => p a).map f := by
  induction as with
  | nil => rfl
  | cons a as ih =>
      rw [List.map_cons, List.flatten_cons, ih, List.filter_cons]
      by_cases ha : p a
      · rw [if_pos ha, if_pos (decide_eq_true ha)]
        rfl
      · rw [if_neg ha, if_neg (mt of_decide_eq_true ha)]
        rfl

/-- The last position is asked for only if there is a wrapped secret. -/
theorem secretViolation_eq_ok {tlvs : List Tlv} {i : Nat} (h : i ∈ Image.secretIndices tlvs) :
    secretViolation tlvs i = .ok (if i + 1 ≠ tlvs.length then [.secretNotLast i] else []) := by
  have hpos : 0 < tlvs.length := by
    cases tlvs with
    | nil => cases h
    | cons t ts => exact Nat.succ_pos _
  rw [secretViolation, sub_eq_ok hpos]
  show Except.ok (if i ≠ tlvs.length - 1 then _ else _) = _
  by_cases hlast : i + 1 = tlvs.length
  · rw [if_neg (by omega), if_neg (not_not.mpr hlast)]
  · rw [if_pos (by omega), if_pos hlast]

/-- The structure rules are checked without a fault, and find what there is to find. -/
theorem violations_eq_ok (tlvs : List Tlv) : violations tlvs = .ok (Image.violations tlvs) := by
  obtain ⟨found, hfound, hflat⟩ := mapM_zipIdx tlvs (pairViolation tlvs)
    (fun before behind =>
      Image.pairViolations before.length (before.getLast?.map (·.tag)) behind)
    (fun _ => rfl) <| by
      rintro before t behind rfl
      refine ⟨_, pairViolation_eq_ok before t behind, ?_⟩
      rw [List.length_append, List.length_singleton, List.getLast?_concat]
      rfl
  have hsecrets := mapM_eq_ok fun i (hi : i ∈ Image.secretIndices tlvs) => secretViolation_eq_ok hi
  rw [violations, hfound]
  show ((Image.secretIndices tlvs).mapM (secretViolation tlvs) >>= fun last => _) = _
  rw [hsecrets]
  show Except.ok _ = Except.ok _
  rw [flatten_map_ite, hflat]
  rfl

/-! ## Images of the older format -/

theorem inBounds_parseLegacy (data : Bytes) : InBounds (parseLegacy data) (Legacy.parse data) := by
  rw [parseLegacy, Legacy.parse]
  cases hread : Legacy.Header.read? data with
  | none => exact .throw _
  | some found =>
      obtain ⟨found, header, behind⟩ := found
      dsimp only
      split
      · exact .throw _
      · rename_i hmagic
        obtain rfl := not_not.mp hmagic
        have hlength : data.length = Content.headerLength + behind.length := by
          rw [Legacy.Header.read?_eq_some_iff.mp hread, List.length_append,
            Legacy.Header.length_toBytes]
        refine (inBounds_splitContent hlength).adapt_bind ?_ ?_
        · intro e he
          rw [he]
        · intro pieces hpieces
          obtain ⟨pad, body, area⟩ := pieces
          rw [hpieces]
          dsimp only
          rw [Legacy.readTlvs]
          split
          · exact .throw _
          · rw [Tlv.readAll]
            refine (InBounds.readAll reads_tlvKind area).adapt_bind ?_ ?_
            · intro e he
              rw [he]
            · intro tlvs htlvs
              rw [htlvs]
              exact .pure _

/-- The positions of the values with a tag lead to these values.  The induction is on the values
that are left. -/
theorem getElem?_indicesOf (tag : UInt8) (before behind : List Tlv) :
    List.Forall₂ (fun i t => (before ++ behind)[i]? = some t)
      ((behind.zipIdx before.length).filterMap fun (t, i) => if t.tag = tag then some i else none)
      (behind.filter (·.tag = tag)) := by
  induction behind generalizing before with
  | nil => exact .nil
  | cons t behind ih =>
      have hrest := ih (before ++ [t])
      rw [← List.append_cons, List.length_append, List.length_singleton] at hrest
      rw [List.zipIdx_cons, List.filterMap_cons, List.filter_cons]
      by_cases htag : t.tag = tag
      · simp only [if_pos htag, decide_eq_true htag]
        exact .cons (getElem?_append_length before t behind) hrest
      · simp only [if_neg htag, decide_eq_false htag]
        exact hrest

/-- The position of the only value with a tag leads to this value, and without such a position there
is no such value. -/
theorem findUnique_cases (tag : UInt8) (tlvs : List Tlv) :
    (∃ i t, tlvs[i]? = some t ∧ findUnique tag tlvs = .ok i ∧ Tlv.findUnique tag tlvs = .ok t) ∨
      ∃ e, findUnique tag tlvs = .error e ∧ Tlv.findUnique tag tlvs = .error e := by
  have hall : List.Forall₂ (fun i t => tlvs[i]? = some t) (Tlv.indicesOf tag tlvs)
      (tlvs.filter (·.tag = tag)) := getElem?_indicesOf tag [] tlvs
  rw [findUnique, Tlv.findUnique]
  generalize Tlv.indicesOf tag tlvs = positions at hall
  generalize tlvs.filter (·.tag = tag) = found at hall
  cases hall with
  | nil => exact .inr ⟨_, rfl, rfl⟩
  | @cons i t positions found hhead hrest =>
      cases hrest with
      | nil => exact .inl ⟨i, t, hhead, rfl, rfl⟩
      | cons _ hmore =>
          have hcount := congrArg (fun n => Tlv.Error.notUnique (Tlv.tagName tag) (n + 1 + 1))
            hmore.length_eq
          exact .inr ⟨_, congrArg Except.error hcount, rfl⟩

theorem inBounds_legacyHash (img : Legacy) : InBounds (legacyHash img) img.hash := by
  rw [legacyHash, Legacy.hash]
  rcases findUnique_cases Legacy.sha256Tag img.tlvs with ⟨i, t, ht, hi, hfound⟩ | ⟨e, hi, hfound⟩
  · rw [hi, hfound]
    refine .bind_ok (.adapt (.ofResult _) _) (.bind_ok (.access (index_eq_ok ht)) ?_)
    dsimp only
    split
    · exact .throw _
    · rename_i hsize
      rw [if_pos (not_not.mp hsize)]
      exact .pure _
  · rw [hi, hfound]
    exact .bind_error (.adapt (.ofResult _) _)

end Firmware.Checked
