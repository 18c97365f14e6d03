import Firmware.Checked.Factory
import Firmware.Proofs.Bytes.Erased
import Firmware.Proofs.Checked.Basic
import Firmware.Proofs.Meta.Digest
import Mathlib.Data.List.Induction

/-!
# Factory binaries without a fault

Each of the functions on meta regions, factory binaries and flash layouts with checked accesses
meets no fault, whatever it is given, and comes to what the function on lists comes to.

What the accesses rely on is said by lemmas: the size in a footer is compared with the data before it
is subtracted, a digest lies within its region (`Meta.DigestBetween`) and the region within the
binary that was filled up for it (`copyTo_splice`), and the ends of a clipped range are in order
(`clipRange_ordered`).
-/

namespace Firmware.Checked

/-! ## Values -/

theorem itemKind_header?_eq_some_iff {bs behind : Bytes} {len : Nat} {value : Bytes → Meta.Item} :
    itemKind.header? bs = some (len, value, behind) ↔ ∃ tag size,
      bs = tag :: size :: behind ∧ len = size.toNat ∧ value = fun data => ⟨tag, data⟩ := by
  constructor
  · intro h
    match bs, h with
    | tag :: size :: rest, h =>
        obtain ⟨rfl, rfl, rfl⟩ := Option.some.inj h
        exact ⟨tag, size, rfl, rfl, rfl⟩
  · rintro ⟨tag, size, rfl, rfl, rfl⟩
    rfl

theorem reads_itemKind : Reads itemKind Meta.readFrom where
  header := by
    intro bs len value behind h
    obtain ⟨tag, size, rfl, -, -⟩ := itemKind_header?_eq_some_iff.mp h
    exact ⟨rfl, Nat.add_comm _ 2⟩
  nil := Meta.readFrom_nil
  headerTruncated := by
    intro index offset bs hne h
    refine Meta.readFrom_of_error hne ?_
    match bs, h with
    | [], _ => rfl
    | [_], _ => rfl
  dataTruncated := by
    intro index offset bs len value behind h hshort
    obtain ⟨tag, size, rfl, rfl, -⟩ := itemKind_header?_eq_some_iff.mp h
    refine Meta.readFrom_of_error (List.cons_ne_nil _ _) ?_
    rw [Meta.Item.read, Bytes.splitAt?_eq_none_iff.mpr hshort]
    show _ = Except.error (Meta.Error.tlvDataTruncated index (UInt8.ofNat size.toNat) _)
    rw [UInt8.ofNat_toNat]
  cons := by
    intro index offset bs len value behind h hlen
    obtain ⟨tag, size, rfl, rfl, rfl⟩ := itemKind_header?_eq_some_iff.mp h
    have hread : Meta.Item.read index offset (tag :: size :: behind) =
        .ok (⟨tag, behind.take size.toNat⟩, behind.drop size.toNat) := by
      rw [Meta.Item.read, Bytes.splitAt?_of_le hlen]
    have hsize : Meta.Item.size ⟨tag, behind.take size.toNat⟩ =
        itemKind.headerSize + size.toNat := by
      rw [Meta.Item.size, List.length_take_of_le hlen]
      rfl
    rw [Meta.readFrom_cons hread, hsize]
    generalize Meta.readFrom (index + 1) _ _ = rest
    cases rest with
    | error e => rfl
    | ok ts => rfl

/-! ## Meta regions -/

theorem inBounds_parseMeta (data : Bytes) : InBounds (parseMeta data) (Meta.parse data) := by
  rw [parseMeta, Meta.parse]
  split
  · exact .throw _
  · rename_i hlong
    have hfooter := Nat.le_of_not_lt hlong
    refine .bind_ok (.access (sub_eq_ok hfooter)) ?_
    refine .bind_ok (.access (rangeFrom_eq_ok (Nat.sub_le _ _))) ?_
    cases Meta.Footer.read? (data.drop (data.length - Meta.footerLength)) with
    | none => exact .throw _
    | some found =>
        obtain ⟨footer, found⟩ := found
        dsimp only
        split
        · exact .throw _
        · split
          · exact .throw _
          · rename_i hlarge
            split
            · exact .throw _
            · rename_i hfits
              have hsize := Nat.le_of_not_lt hfits
              have horder : data.length - footer.size.toNat ≤ data.length - Meta.footerLength :=
                Nat.sub_le_sub_left (Nat.le_of_not_lt hlarge) _
              have harea := range_eq_ok horder (Nat.sub_le _ _)
              refine .bind_ok (.access (sub_eq_ok hsize)) (.bind_ok (.access harea) ?_)
              refine (InBounds.readAll reads_itemKind _).bind_cases ?_ ?_
              · intro e he
                rw [Bytes.slice, he]
              · intro items hitems
                rw [Bytes.slice, hitems]
                exact .pure _

theorem getElem?_of_digests {m : Meta} {t : Meta.Item} {i : Nat}
    (h : (m.items.zipIdx.filter fun (t, _) => t.tag = Meta.hashTag) = [(t, i)]) :
    m.items[i]? = some t :=
  List.mem_zipIdx_iff_getElem?.mp (List.mem_of_mem_filter (h ▸ List.mem_singleton_self _))

theorem inBounds_hashIndex (m : Meta) : InBounds (hashIndex m) m.hashIndex := by
  rw [hashIndex, Meta.hashIndex, Meta.hashItem]
  cases hfound : m.items.zipIdx.filter fun (t, _) => t.tag = Meta.hashTag with
  | nil => exact .throw _
  | cons entry more =>
      obtain ⟨t, i⟩ := entry
      cases more with
      | nil =>
          refine .bind_ok (.access (index_eq_ok (getElem?_of_digests hfound))) ?_
          dsimp only
          split
          · exact .throw _
          · rename_i hsize
            rw [if_pos (not_not.mp hsize)]
            exact .pure i
      | cons entry' more =>
          show InBounds (throw (Meta.Error.tlvNotUnique _
            (((t, i) :: entry' :: more).map Prod.snd).length)) _
          rw [List.length_map]
          exact .throw _

theorem inBounds_flashAreas (m : Meta) : InBounds (flashAreas m) m.flashAreas := by
  refine .mapM fun t => ?_
  cases Meta.AreaEntry.read? t.data with
  | none => exact .throw _
  | some e => exact .pure e

theorem inBounds_refs (m : Meta) : InBounds (refs m) m.refs := by
  refine .mapM fun t => ?_
  cases Meta.readRef? t.data with
  | none => exact .throw _
  | some area => exact .pure area

/-! ### The digest of a region -/

section Digest

variable {m : Meta} {before behind : List Meta.Item} {digest : Bytes}

theorem getElem?_digest (h : m.DigestBetween before digest behind) :
    m.items[before.length]? = some ⟨Meta.hashTag, digest⟩ := by
  rw [h.items_eq, getElem?_append_length]

/-- The region with another value in the place of its digest. -/
theorem set_digest (h : m.DigestBetween before digest behind) (fresh : Bytes) :
    { m with items := m.items.set before.length ⟨Meta.hashTag, fresh⟩ } = m.withDigest fresh := by
  have hset : m.items.set before.length ⟨Meta.hashTag, fresh⟩ = (m.withDigest fresh).items := by
    rw [(h.withDigest fresh).items_eq, h.items_eq, List.set_append_right _ _ (Nat.le_refl _),
      Nat.sub_self]
    rfl
  rw [hset]
  rfl

/-- A digest fits the place of another one. -/
theorem modifyAt_digest {fresh : Bytes} (h : m.DigestBetween before digest behind)
    (hlength : digest.length = fresh.length) :
    modifyAt m.items before.length (fun t => do return { t with data := ← copy t.data fresh }) =
      .ok (m.items.set before.length ⟨Meta.hashTag, fresh⟩) := by
  refine modifyAt_eq_ok (getElem?_digest h) ?_
  rw [copy_eq_ok hlength]
  rfl

end Digest

theorem inBounds_metaHash (m : Meta) : InBounds (metaHash m) m.hash := by
  have hindex := inBounds_hashIndex m
  rw [metaHash]
  cases hitem : m.hashItem with
  | error e =>
      rw [Meta.hashIndex, hitem] at hindex
      rw [Meta.hash, hitem]
      exact .bind_error hindex
  | ok entry =>
      obtain ⟨t, i⟩ := entry
      obtain ⟨-, htag, before, behind, hbetween, rfl⟩ := Meta.hashItem_eq_ok_iff.mp hitem
      rw [Meta.hashIndex, hitem] at hindex
      rw [Meta.hash, hitem]
      exact .bind_ok hindex (.bind_ok (.access (index_eq_ok (getElem?_digest hbetween))) (.pure _))

theorem inBounds_clearHash (m : Meta) : InBounds (clearHash m) m.clearHash := by
  rw [clearHash, Meta.clearHash]
  refine (inBounds_hashIndex m).bind_cases ?_ ?_
  · intro e he
    rw [he]
  · intro i hi
    obtain ⟨digest, hdigest, before, behind, hbetween, rfl⟩ := Meta.hashIndex_eq_ok_iff.mp hi
    have hset := modifyAt_eq_ok (f := fun t : Meta.Item =>
      .ok { t with data := Bytes.zeros t.data.length }) (getElem?_digest hbetween) rfl
    rw [hi]
    refine .bind_ok (.access hset) ?_
    dsimp only
    rw [hdigest.length, set_digest hbetween, ← hbetween.setData_eq]
    exact .pure _

/-- A region fits the binary that was filled up for it. -/
theorem copyTo_splice (offset : Nat) (carrier : Bytes) (erase : UInt8) (region : Bytes) :
    copyTo (Bytes.extendTo (offset + region.length) erase carrier) offset (offset + region.length)
      region = .ok (Meta.splice carrier offset erase region) := by
  refine copyTo_eq_ok rfl ?_
  rw [Bytes.length_extendTo]
  exact Nat.le_max_left _ _

/-- A digest fits the binary that carries the region with zeros in the place of the digest. -/
theorem copyTo_digest {m : Meta} {digest fresh : Bytes} {place : Nat} (h : m.HasDigest digest)
    (hplace : place + 2 = (m.withDigest (Bytes.zeros Meta.hashLength)).digestOffset)
    (hfresh : fresh.length = Meta.hashLength) (offset : Nat) (carrier : Bytes) (erase : UInt8) :
    copyTo (Meta.splice carrier offset erase (m.withDigest (Bytes.zeros Meta.hashLength)).bytes)
        (offset + place + 2) (offset + place + 2 + Meta.hashLength) fresh =
      .ok (Meta.splice carrier offset erase (m.withDigest fresh).bytes) := by
  rw [h.digestOffset_withDigest] at hplace
  have hsize : (m.withDigest (Bytes.zeros Meta.hashLength)).bytes.length = m.size :=
    h.length_bytes_withDigest Meta.length_blank
  have hfits : offset + place + 2 + Meta.hashLength ≤ (Meta.splice carrier offset erase
      (m.withDigest (Bytes.zeros Meta.hashLength)).bytes).length := by
    have hinside := h.digestOffset_add_le
    rw [Meta.length_splice, hsize]
    omega
  rw [copyTo_eq_ok (congrArg _ hfresh) hfits, Nat.add_assoc, hplace,
    h.overwrite_digest Meta.length_blank hfresh]

theorem inBounds_rehashMeta (m : Meta) (offset : Nat) (carrier : Bytes) (erase : UInt8) :
    InBounds (rehashMeta m offset carrier erase) (m.rehash offset carrier erase) := by
  have hclear := inBounds_clearHash m
  rw [rehashMeta]
  cases hfound : m.hashIndex with
  | error e =>
      rw [Meta.clearHash, hfound] at hclear
      rw [Meta.rehash, hfound]
      exact .bind_error hclear
  | ok i =>
      obtain ⟨digest, hdigest, before, behind, hbetween, rfl⟩ := Meta.hashIndex_eq_ok_iff.mp hfound
      have hblank := hbetween.withDigest (Bytes.zeros Meta.hashLength)
      have hcleared : m.clearHash = .ok (m.withDigest (Bytes.zeros Meta.hashLength)) := by
        rw [Meta.clearHash, hfound, ← hbetween.setData_eq]
      have hindex := inBounds_hashIndex (m.withDigest (Bytes.zeros Meta.hashLength))
      rw [Meta.hashIndex_eq_ok_iff.mpr
        ⟨_, hdigest.withDigest Meta.length_blank, before, behind, hblank, rfl⟩] at hindex
      rw [hcleared] at hclear
      rw [hdigest.rehash_eq]
      refine .bind_ok hclear (.bind_ok hindex ?_)
      cases hregion : (m.withDigest (Bytes.zeros Meta.hashLength)).toBytes with
      | error e => exact .bind_error (.ofResult _)
      | ok region =>
          obtain ⟨-, rfl⟩ := Meta.toBytes_eq_ok_iff.mp hregion
          obtain ⟨place, hplace, hdigestPlace⟩ := hblank.exists_offset
          have hlength : (m.freshDigest offset carrier erase).length = Meta.hashLength :=
            Meta.length_freshDigest
          refine .bind_ok (.ofResult _) ?_
          refine .bind_ok (.access (copyTo_splice offset carrier erase _)) ?_
          refine .bind_ok (.access (index_eq_ok hplace)) ?_
          refine .bind_ok (.access (copyTo_digest hdigest hdigestPlace hlength _ _ _)) ?_
          refine .bind_ok
            (.access (modifyAt_digest hblank (Meta.length_blank.trans hlength.symm))) ?_
          rw [set_digest hblank, Meta.withDigest_withDigest]
          exact .pure _

/-! ## Factory binaries -/

theorem inBounds_parseFactory (data : Bytes) (stop : Option Nat) :
    InBounds (parseFactory data stop) (Factory.parse data stop) := by
  cases stop with
  | none => exact .pure _
  | some stop =>
      rw [parseFactory, Factory.parse]
      split
      · exact .throw _
      · rename_i hstop
        refine .bind_ok (.access (rangeTo_eq_ok (Nat.le_of_not_lt hstop))) ?_
        refine (inBounds_parseMeta _).adapt_bind ?_ ?_
        · intro e he
          rw [he]
        · intro found hfound
          rw [hfound]
          exact .pure _

theorem inBounds_rehashFactory (f : Factory) (erase : UInt8) :
    InBounds (rehashFactory f erase) (f.rehash erase) := by
  rw [rehashFactory, Factory.rehash]
  cases f.region with
  | none => exact .throw _
  | some region =>
      dsimp only
      refine (inBounds_rehashMeta _ _ _ _).adapt_bind ?_ ?_
      · intro e he
        rw [he]
      · intro fresh hfresh
        rw [hfresh]
        exact .pure _

/-- The digest that a region carries is of the size of the buffer that it is copied to. -/
theorem inBounds_factoryHash (f : Factory) : InBounds (factoryHash f) f.hash := by
  rw [factoryHash, Factory.hash]
  cases f.region with
  | none => exact .pure _
  | some region =>
      dsimp only
      refine (inBounds_metaHash region).adapt_bind ?_ ?_
      · intro e he
        rw [he]
      · intro digest hdigest
        have hlength := (Meta.hash_eq_ok_iff.mp hdigest).length
        rw [hdigest]
        exact .access (copy_eq_ok (Meta.length_blank.trans hlength.symm))

/-! ## Flash layouts -/

theorem overlaps_eq_ok (device : UInt8) (before : List Flash.Area) (a : Flash.Area)
    (behind : List Flash.Area) :
    overlaps device (before ++ a :: behind) a before.length =
      .ok (((behind.takeWhile fun b => b.start < a.stop).filter fun b =>
        !b.isEmpty && !a.isEmpty).map (.overlap device a)) := by
  have hfront : (before ++ [a]).length = before.length + 1 := List.length_append
  have hle : before.length + 1 ≤ (before ++ a :: behind).length := by
    rw [List.length_append, List.length_cons]
    omega
  rw [overlaps, rangeFrom_eq_ok hle, List.append_cons, List.drop_left' hfront]
  rfl

theorem sweep_eq_ok (device : UInt8) (areas : List Flash.Area) :
    sweep device areas = .ok (Flash.sweep device areas) := by
  obtain ⟨found, hfound, hflat⟩ := mapM_zipIdx areas (overlaps device areas)
    (fun _ behind => Flash.sweep device behind) (fun _ => rfl) <| by
      rintro before a behind rfl
      exact ⟨_, overlaps_eq_ok device before a behind, rfl⟩
  rw [sweep, hfound, ← hflat]
  rfl

theorem deviceProblems_eq_ok (areas : List Flash.Area) (device : UInt8) :
    deviceProblems areas device = .ok (Flash.deviceProblems areas device) := by
  rw [deviceProblems, Flash.deviceProblems]
  cases areas.filter (·.device = device) with
  | nil => rfl
  | cons a more =>
      dsimp only
      rw [sweep_eq_ok]
      rfl

theorem inBounds_validate (areas : List Flash.Area) :
    InBounds (validate areas) (Flash.validate areas) := by
  have hfound : Flash.octets.mapM (deviceProblems areas) =
      .ok (Flash.octets.map (Flash.deviceProblems areas)) :=
    mapM_eq_ok fun device _ => deviceProblems_eq_ok areas device
  refine .bind_ok (.access hfound) ?_
  rw [Flash.validate, Flash.problems, List.flatMap]
  cases (Flash.octets.map (Flash.deviceProblems areas)).flatten with
  | nil => exact .pure ()
  | cons p more => exact .throw _

/-! ## Splitting -/

theorem trimEnd_append_self (fill : UInt8) (bs : Bytes) :
    Bytes.trimEnd fill (bs ++ [fill]) = Bytes.trimEnd fill bs := by
  rw [Bytes.trimEnd, List.reverse_append, List.reverse_singleton, List.singleton_append,
    List.dropWhile_cons, if_pos (beq_self_eq_true fill)]
  rfl

theorem trimEnd_append_of_ne {fill b : UInt8} (h : b ≠ fill) (bs : Bytes) :
    Bytes.trimEnd fill (bs ++ [b]) = bs ++ [b] := by
  have hb : ¬(b == fill) = true := by rwa [beq_iff_eq]
  rw [Bytes.trimEnd, List.reverse_append, List.reverse_singleton, List.singleton_append,
    List.dropWhile_cons, if_neg hb, List.reverse_cons, List.reverse_reverse]

theorem zipIdx_append_singleton (bs : Bytes) (b : UInt8) :
    (bs ++ [b]).zipIdx = bs.zipIdx ++ [(b, bs.length)] := by
  rw [List.zipIdx_append, List.zipIdx_singleton, Nat.zero_add]

theorem trimmedLength_append_self (fill : UInt8) (bs : Bytes) :
    trimmedLength fill (bs ++ [fill]) = trimmedLength fill bs := by
  have hlast : [(fill, bs.length)].filter (fun e => e.1 ≠ fill) = [] :=
    List.filter_cons_of_neg (by simp)
  rw [trimmedLength, zipIdx_append_singleton, List.filter_append, hlast, List.append_nil]
  rfl

theorem trimmedLength_append_of_ne {fill b : UInt8} (h : b ≠ fill) (bs : Bytes) :
    trimmedLength fill (bs ++ [b]) = (bs ++ [b]).length := by
  have hlast : [(b, bs.length)].filter (fun e => e.1 ≠ fill) = [(b, bs.length)] :=
    List.filter_cons_of_pos (decide_eq_true h)
  rw [trimmedLength, zipIdx_append_singleton, List.filter_append, hlast, List.getLast?_concat,
    List.length_append]
  rfl

/-- The induction is on the bytes from the end. -/
theorem take_trimmedLength (fill : UInt8) (bs : Bytes) :
    trimmedLength fill bs ≤ bs.length ∧
      bs.take (trimmedLength fill bs) = Bytes.trimEnd fill bs := by
  induction bs using List.reverseRecOn with
  | nil => exact ⟨Nat.le_refl 0, rfl⟩
  | append_singleton bs b ih =>
      obtain ⟨hle, htake⟩ := ih
      by_cases hb : b = fill
      · obtain rfl := hb
        rw [trimmedLength_append_self, trimEnd_append_self, List.take_append_of_le_length hle,
          List.length_append]
        exact ⟨Nat.le_add_right_of_le hle, htake⟩
      · rw [trimmedLength_append_of_ne hb, trimEnd_append_of_ne hb, List.take_length]
        exact ⟨Nat.le_refl _, rfl⟩

/-- The ends of a clipped range are in order: what is added to the offset is cut off at a number
that is at least as large as any offset. -/
theorem clipRange_ordered (offset size : UInt64) (len : Nat) :
    (Bytes.clipRange offset size len).1 ≤ (Bytes.clipRange offset size len).2 ∧
      (Bytes.clipRange offset size len).2 ≤ len := by
  have hoffset := offset.toNat_lt_size
  refine ⟨?_, Nat.min_le_right _ _⟩
  show min offset.toNat len ≤ min (min (offset.toNat + size.toNat) (UInt64.size - 1)) len
  omega

theorem areaContent_eq_ok (binary : Bytes) (erase : UInt8) (a : Flash.Area) :
    areaContent binary erase a = .ok (Factory.areaContent binary erase a) := by
  have hclip := clipRange_ordered a.offset.toUInt64 a.size.toUInt64 binary.length
  rw [areaContent, Factory.areaContent]
  generalize Bytes.clipRange a.offset.toUInt64 a.size.toUInt64 binary.length = ends at hclip
  obtain ⟨start, stop⟩ := ends
  obtain ⟨horder, hstop⟩ := hclip
  obtain ⟨hle, htake⟩ := take_trimmedLength erase (Bytes.slice binary start stop)
  dsimp only
  rw [range_eq_ok horder hstop, ← htake]
  exact rangeTo_eq_ok hle

/-- The names that were met before are those of the contents that were cut out before. -/
theorem inBounds_collect (binary : Bytes) (erase : UInt8) (found : Factory.Blobs)
    (areas : List Flash.Area) :
    InBounds (collect binary erase found areas)
      ((Factory.firstRepeated (found.map (·.1)) (areas.map (·.name))).elim
        (.ok ((areas.map fun a => (a.name, Factory.areaContent binary erase a)).reverse ++ found))
        fun name => .error (.duplicateAreaName name)) := by
  induction areas generalizing found with
  | nil => exact .pure found
  | cons a areas ih =>
      rw [collect, List.map_cons, Factory.firstRepeated]
      split
      · exact .throw _
      · have hloop := ih ((a.name, Factory.areaContent binary erase a) :: found)
        rw [List.map_cons, List.reverse_cons, List.append_assoc]
        exact .bind_ok (.access (areaContent_eq_ok binary erase a)) hloop

theorem inBounds_split (binary : Bytes) (device : UInt8) (areas : List Flash.Area) (erase : UInt8) :
    InBounds (split binary device areas erase) (Factory.split binary device areas erase) := by
  have hcollect := inBounds_collect binary erase [] (areas.filter (·.device = device))
  rw [split, Factory.split]
  refine (inBounds_validate areas).adapt_bind ?_ ?_
  · intro e he
    rw [he]
  · intro _ hvalid
    rw [hvalid]
    dsimp only
    rw [List.map_nil] at hcollect
    cases hrepeated : Factory.firstRepeated []
        ((areas.filter (·.device = device)).map (·.name)) with
    | some name =>
        rw [hrepeated] at hcollect
        exact .bind_error hcollect
    | none =>
        rw [hrepeated] at hcollect
        refine .bind_ok hcollect ?_
        rw [List.append_nil, List.reverse_reverse]
        exact .pure _

end Firmware.Checked
