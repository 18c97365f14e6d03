import Firmware.Meta.Format
import Firmware.Proofs.Bytes
import Firmware.Proofs.Sink

/-!
# One region for every end of a binary

A region stands in a binary as `Meta.bytes`: its values one after the other and the footer behind
them.  `toBytes_eq_ok_iff` says that writing yields exactly these bytes, for the regions whose
values and size fit their fields.

Reading starts at the end: the last eight bytes say where the region begins.  By `parse_eq_ok_iff`
it finds a region exactly in the binaries that end in the bytes of one, whatever stands before it,
and the size in the footer is then the size of the region.  The footer is read before the values,
but it stands behind them, so the two directions of the equivalence go through the binary in
opposite orders.

The values of a region may have been edited since its footer was made.  Writing does not look at the
old size, so the region comes back as `Meta.withSize`, and `parse_toBytes_round_trip` puts the two
directions together.
-/

namespace Firmware.Meta

/-! ## Values -/

/-- Whether the data of a value fits its 8-bit length. -/
def Item.Fits (t : Item) : Prop := t.data.length < UInt8.size

@[simp] theorem Item.length_toBytes (t : Item) : t.toBytes.length = t.size := by
  simp only [Item.toBytes, Item.headerBytes, Item.size, List.length_append, List.length_cons,
    List.length_nil]

theorem Item.read_eq_ok_iff {index offset : Nat} {bs rest : Bytes} {t : Item} :
    Item.read index offset bs = .ok (t, rest) ↔ bs = t.toBytes ++ rest ∧ t.Fits := by
  constructor
  · intro h
    unfold Item.read at h
    split at h
    · rename_i tag len r
      split at h
      · rename_i d r' hs
        cases h
        obtain ⟨rfl, hlen⟩ := Bytes.splitAt?_eq_some_iff.mp hs
        have hcoded : UInt8.ofNat d.length = len := by
          rw [hlen, UInt8.ofNat_toNat]
        refine ⟨?_, Nat.lt_of_le_of_lt (Nat.le_of_eq hlen) len.toNat_lt⟩
        rw [Item.toBytes, Item.headerBytes, hcoded]
        rfl
      · cases h
    · cases h
  · rintro ⟨rfl, hfits⟩
    have hlen : (UInt8.ofNat t.data.length).toNat = t.data.length := UInt8.toNat_ofNat_of_lt' hfits
    have hsplit : Bytes.splitAt? t.data.length (t.data ++ rest) = some (t.data, rest) :=
      Bytes.splitAt?_eq_some_iff.mpr ⟨rfl, rfl⟩
    simp only [Item.toBytes, Item.headerBytes, List.cons_append, List.nil_append, Item.read, hlen,
      hsplit]

theorem readFrom_nil (index offset : Nat) : readFrom index offset [] = .ok [] := by
  rw [readFrom]
  rfl

theorem readFrom_cons {index offset : Nat} {bs rest : Bytes} {t : Item}
    (h : Item.read index offset bs = .ok (t, rest)) :
    readFrom index offset bs =
      match readFrom (index + 1) (offset + t.size) rest with
      | .error e => .error e
      | .ok ts => .ok (t :: ts) := by
  have hne : bs.isEmpty = false := by
    obtain ⟨rfl, -⟩ := Item.read_eq_ok_iff.mp h
    rfl
  rw [readFrom, hne]
  simp only [Bool.false_eq_true, if_false]
  split
  · rename_i e he
    rw [h] at he
    cases he
  · rename_i t' rest' he
    rw [h] at he
    cases he
    rfl

theorem readFrom_of_error {index offset : Nat} {bs : Bytes} {e : Error} (hne : bs ≠ [])
    (h : Item.read index offset bs = .error e) : readFrom index offset bs = .error e := by
  rw [readFrom, if_neg (mt List.isEmpty_iff.mp hne)]
  split
  · rename_i h'
    cases h.symm.trans h'
    rfl
  · rename_i h'
    cases h.symm.trans h'

/-- Reading a list of values: the induction is on the input that is left. -/
theorem readFrom_eq_ok_iff {index offset : Nat} {bs : Bytes} {ts : List Item} :
    readFrom index offset bs = .ok ts ↔ bs = ts.flatMap Item.toBytes ∧ ∀ t ∈ ts, t.Fits := by
  constructor
  · intro h
    fun_induction readFrom index offset bs generalizing ts with
    | case1 index offset bs hempty =>
        cases h
        exact ⟨List.isEmpty_iff.mp hempty, fun _ ht => absurd ht List.not_mem_nil⟩
    | case2 => cases h
    | case3 => cases h
    | case4 index offset bs _ t rest hread _ ts' _ ih =>
        cases h
        obtain ⟨rfl, hfits⟩ := Item.read_eq_ok_iff.mp hread
        obtain ⟨hrest, hall⟩ := ih ‹_›
        exact ⟨by rw [List.flatMap_cons, ← hrest], List.forall_mem_cons.mpr ⟨hfits, hall⟩⟩
  · rintro ⟨rfl, hall⟩
    induction ts generalizing index offset with
    | nil => exact readFrom_nil index offset
    | cons t ts ih =>
        obtain ⟨hfits, hall⟩ := List.forall_mem_cons.mp hall
        rw [readFrom_cons (Item.read_eq_ok_iff.mpr ⟨List.flatMap_cons, hfits⟩), ih hall]

theorem length_flatMap_toBytes (ts : List Item) :
    (ts.flatMap Item.toBytes).length = areaSize ts := by
  induction ts with
  | nil => rfl
  | cons t ts ih => rw [List.flatMap_cons, List.length_append, Item.length_toBytes, ih]; rfl

/-! ## Regions -/

/-- A region whose values and size fit their fields. -/
structure Writable (m : Meta) : Prop where
  fits : ∀ t ∈ m.items, t.Fits
  size_lt : m.size < UInt16.size

/-- A region as it stands in a binary. -/
def bytes (m : Meta) : Bytes := m.items.flatMap Item.toBytes ++ m.footerBytes

@[simp] theorem length_footerBytes (m : Meta) : m.footerBytes.length = footerLength := by
  simp [footerBytes, footerLength]

@[simp] theorem length_bytes (m : Meta) : m.bytes.length = m.size := by
  rw [bytes, List.length_append, length_flatMap_toBytes, length_footerBytes, size]

theorem toBytes_scriptFrom_eq_ok_iff {footer bs : Bytes} {index : Nat} {ts : List Item} :
    (scriptFrom footer index ts).toBytes = .ok bs ↔
      (∀ t ∈ ts, t.Fits) ∧ bs = ts.flatMap Item.toBytes ++ footer := by
  induction ts generalizing index bs with
  | nil => simp [scriptFrom, Script.toBytes, eq_comm]
  | cons t ts ih =>
      rw [scriptFrom, List.forall_mem_cons]
      split
      · rename_i hfits
        rw [Script.toBytes_prepend_eq_ok_iff]
        constructor
        · rintro ⟨rest, hrest, rfl⟩
          obtain ⟨hall, rfl⟩ := ih.mp hrest
          exact ⟨⟨hfits, hall⟩, by simp [Item.toBytes]⟩
        · rintro ⟨⟨-, hall⟩, rfl⟩
          exact ⟨_, ih.mpr ⟨hall, rfl⟩, by simp [Item.toBytes]⟩
      · rename_i hlarge
        constructor
        · intro h
          cases h
        · rintro ⟨⟨hfits, -⟩, -⟩
          exact absurd hfits hlarge

theorem toBytes_eq_ok_iff {m : Meta} {bs : Bytes} :
    m.toBytes = .ok bs ↔ m.Writable ∧ bs = m.bytes := by
  unfold toBytes script
  split
  · rename_i hlarge
    constructor
    · intro h
      cases h
    · rintro ⟨hwritable, -⟩
      exact absurd hwritable.size_lt (Nat.not_lt_of_le hlarge)
  · rename_i hsize
    rw [toBytes_scriptFrom_eq_ok_iff]
    constructor
    · rintro ⟨hfits, rfl⟩
      exact ⟨⟨hfits, Nat.lt_of_not_le hsize⟩, rfl⟩
    · rintro ⟨hwritable, rfl⟩
      exact ⟨hwritable.fits, rfl⟩

/-! ## Reading from the end -/

/-- A region that can be written and whose footer has its size: what reading yields. -/
structure Sound (m : Meta) : Prop extends Writable m where
  footer_size : m.footer.size.toNat = m.size

/-- A footer is read as it is written, and nothing stands behind it. -/
theorem footer_read?_eq_some_iff {bs : Bytes} {footer : Footer} (hbs : bs.length = footerLength) :
    Footer.read? bs = some (footer, magic) ↔
      bs = Bytes.ofU16 footer.size ++ footer.version :: footer.pad :: Bytes.ofU32 magic := by
  obtain ⟨size, version, pad⟩ := footer
  simp only [Footer.read?, Option.bind_eq_bind, Option.bind_eq_some_iff, Prod.exists,
    Bytes.readU32_eq_some_iff, Bytes.readU16_eq_some_iff, Bytes.readU8_eq_some_iff]
  constructor
  · rintro ⟨s, _, rfl, v, _, rfl, p, _, rfl, found, rest, rfl, h⟩
    cases h
    have hrest : rest = [] := by
      simp only [List.length_append, List.length_cons, Bytes.length_ofU16, Bytes.length_ofU32,
        footerLength] at hbs
      exact List.length_eq_zero_iff.mp (by omega)
    rw [hrest, List.append_nil]
  · rintro rfl
    exact ⟨size, _, rfl, version, _, rfl, pad, _, rfl, magic, [], (List.append_nil _).symm, rfl⟩

theorem Sound.footerBytes_eq {m : Meta} (h : m.Sound) :
    m.footerBytes =
      Bytes.ofU16 m.footer.size ++ m.footer.version :: m.footer.pad :: Bytes.ofU32 magic := by
  rw [footerBytes, Bytes.ofU16, h.footer_size, List.append_assoc]
  rfl

/-- Behind any bytes a region is found where it starts. -/
theorem Sound.parse_append {m : Meta} (h : m.Sound) (front : Bytes) :
    parse (front ++ m.bytes) = .ok (m, front.length) := by
  have hsize : m.footer.size.toNat = areaSize m.items + footerLength := h.footer_size
  have hlength : (front ++ m.bytes).length = front.length + m.footer.size.toNat := by
    rw [List.length_append, length_bytes, h.footer_size]
  have hstart : front.length + m.footer.size.toNat - m.footer.size.toNat = front.length :=
    Nat.add_sub_cancel _ _
  have hstop : front.length + m.footer.size.toNat - footerLength =
      front.length + (m.items.flatMap Item.toBytes).length := by
    rw [length_flatMap_toBytes, hsize]
    omega
  have hfooter : Footer.read? ((front ++ m.bytes).drop
      (front.length + (m.items.flatMap Item.toBytes).length)) = some (m.footer, magic) := by
    rw [bytes, ← List.append_assoc, ← List.length_append, List.drop_left,
      footer_read?_eq_some_iff m.length_footerBytes]
    exact h.footerBytes_eq
  have hitems : Bytes.slice (front ++ m.bytes) front.length
      (front.length + (m.items.flatMap Item.toBytes).length) = m.items.flatMap Item.toBytes := by
    rw [bytes, ← List.append_assoc, Bytes.slice_append]
  have hread : readFrom 0 0 (m.items.flatMap Item.toBytes) = .ok m.items :=
    readFrom_eq_ok_iff.mpr ⟨rfl, h.fits⟩
  rw [parse, hlength, hstop, hfooter, if_neg (by omega)]
  dsimp only
  rw [if_neg (not_not_intro rfl), if_neg (by omega), if_neg (by omega), hstart, hitems, hread]

/-- A binary in which a region is found ends in the bytes of that region. -/
theorem sound_of_parse {data : Bytes} {m : Meta} {start : Nat} (h : parse data = .ok (m, start)) :
    m.Sound ∧ data = data.take start ++ m.bytes ∧ start + m.size = data.length := by
  unfold parse at h
  split at h
  · cases h
  · rename_i hlong
    split at h
    · cases h
    · rename_i footer found hfooter
      split at h
      · cases h
      · rename_i hmagic
        split at h
        · cases h
        · rename_i hsmall
          split at h
          · cases h
          · rename_i hlarge
            dsimp only at h
            split at h
            · cases h
            · rename_i items hitems
              cases h
              obtain rfl := Decidable.not_not.mp hmagic
              have hcut := Bytes.take_append_slice_append_drop data
                (data.length - footer.size.toNat) (data.length - footerLength) (by omega)
              obtain ⟨hslice, hfits⟩ := readFrom_eq_ok_iff.mp hitems
              have hsize : areaSize items + footerLength = footer.size.toNat := by
                have hlength := congrArg List.length hcut
                rw [hslice, List.length_append, List.length_append, length_flatMap_toBytes,
                  List.length_take, List.length_drop] at hlength
                omega
              have hsound : (Meta.mk items footer).Sound :=
                { fits := hfits
                  size_lt := Nat.lt_of_le_of_lt (Nat.le_of_eq hsize) footer.size.toNat_lt
                  footer_size := hsize.symm }
              have htail : (data.drop (data.length - footerLength)).length = footerLength := by
                rw [List.length_drop]
                omega
              refine ⟨hsound, ?_, ?_⟩
              · rw [bytes, hsound.footerBytes_eq, ← (footer_read?_eq_some_iff htail).mp hfooter,
                  ← hslice, ← List.append_assoc]
                exact hcut.symm
              · rw [size, hsize]
                omega

/-- Reading finds the regions that a binary may end in. -/
theorem parse_eq_ok_iff {data : Bytes} {m : Meta} {start : Nat} :
    parse data = .ok (m, start) ↔
      m.Sound ∧ ∃ front, data = front ++ m.bytes ∧ front.length = start := by
  constructor
  · intro h
    obtain ⟨hsound, hdata, hlength⟩ := sound_of_parse h
    refine ⟨hsound, data.take start, hdata, ?_⟩
    rw [List.length_take]
    omega
  · rintro ⟨hsound, front, rfl, rfl⟩
    exact hsound.parse_append front

/-! ## Regions that were edited -/

/-- A region whose footer has another size. -/
def withSize (m : Meta) (size : UInt16) : Meta := { m with footer := { m.footer with size } }

@[simp] theorem bytes_withSize (m : Meta) (size : UInt16) : (m.withSize size).bytes = m.bytes := rfl

theorem writable_iff {m : Meta} :
    m.Writable ↔ m.size ≤ 65535 ∧ ∀ t ∈ m.items, t.data.length ≤ 255 := by
  constructor
  · intro h
    exact ⟨Nat.le_of_lt_succ h.size_lt, fun t ht => Nat.le_of_lt_succ (h.fits t ht)⟩
  · rintro ⟨hsize, hitems⟩
    exact ⟨fun t ht => Nat.lt_succ_of_le (hitems t ht), Nat.lt_succ_of_le hsize⟩

/-- Whatever its footer says, a region that can be written is sound with the size that it has. -/
theorem Writable.sound_withSize {m : Meta} (h : m.Writable) {size : UInt16}
    (hsize : size.toNat = m.size) : (m.withSize size).Sound where
  fits := h.fits
  size_lt := h.size_lt
  footer_size := hsize

theorem Writable.parse_append {m : Meta} (h : m.Writable) {size : UInt16}
    (hsize : size.toNat = m.size) (front : Bytes) :
    parse (front ++ m.bytes) = .ok (m.withSize size, front.length) := by
  rw [← bytes_withSize m size]
  exact (h.sound_withSize hsize).parse_append front

theorem exists_toBytes_eq_ok_iff {m : Meta} : (∃ bs, m.toBytes = .ok bs) ↔ m.Writable := by
  constructor
  · rintro ⟨bs, h⟩
    exact (toBytes_eq_ok_iff.mp h).1
  · intro h
    exact ⟨m.bytes, toBytes_eq_ok_iff.mpr ⟨h, rfl⟩⟩

/-- What is read is written back as it stood, and it can be read behind any other bytes. -/
theorem toBytes_of_parse {data : Bytes} {m : Meta} {start : Nat}
    (h : parse data = .ok (m, start)) :
    m.toBytes = .ok (data.drop start) ∧ m.footer.size.toNat = m.size ∧
      ∀ front, parse (front ++ data.drop start) = .ok (m, front.length) := by
  obtain ⟨hsound, before, rfl, rfl⟩ := parse_eq_ok_iff.mp h
  rw [List.drop_left]
  exact ⟨toBytes_eq_ok_iff.mpr ⟨hsound.toWritable, rfl⟩, hsound.footer_size, hsound.parse_append⟩

/-- What is written is read back behind any bytes, with the size that was written. -/
theorem parse_of_toBytes {m : Meta} {bs : Bytes} (h : m.toBytes = .ok bs) :
    ∃ size : UInt16, size.toNat = bs.length ∧
      ∀ front, parse (front ++ bs) = .ok (m.withSize size, front.length) := by
  obtain ⟨hwritable, rfl⟩ := toBytes_eq_ok_iff.mp h
  have hsize : (UInt16.ofNat m.size).toNat = m.size := UInt16.toNat_ofNat_of_lt' hwritable.size_lt
  exact ⟨UInt16.ofNat m.size, hsize.trans m.length_bytes.symm, hwritable.parse_append hsize⟩

/-- Reading and writing undo each other at the end of any binary. -/
theorem parse_toBytes_round_trip :
    (∀ (data : Bytes) (m : Meta) (start : Nat), parse data = .ok (m, start) →
      m.toBytes = .ok (data.drop start) ∧ m.footer.size.toNat = m.size ∧
        ∀ front, parse (front ++ data.drop start) = .ok (m, front.length)) ∧
    (∀ m : Meta, (∃ bs, m.toBytes = .ok bs) ↔
      m.size ≤ 65535 ∧ ∀ t ∈ m.items, t.data.length ≤ 255) ∧
    ∀ (m : Meta) (bs : Bytes), m.toBytes = .ok bs →
      ∃ size : UInt16, size.toNat = bs.length ∧
        ∀ front, parse (front ++ bs) = .ok (m.withSize size, front.length) := by
  refine ⟨fun _ _ _ => toBytes_of_parse, fun m => ?_, fun _ _ => parse_of_toBytes⟩
  rw [exists_toBytes_eq_ok_iff, writable_iff]

/-- A region to which a value was added after its footer was made. -/
def outgrown : Meta := ⟨[Item.blankHash, refItem 3], ⟨42, currentVersion, 0xff⟩⟩

theorem parse_toBytes_round_trip_outgrown :
    outgrown.footer.size.toNat ≠ outgrown.size ∧ outgrown.toBytes = .ok outgrown.bytes ∧
      (∃ size : UInt16, size.toNat = outgrown.bytes.length ∧
        ∀ front, parse (front ++ outgrown.bytes) = .ok (outgrown.withSize size, front.length)) ∧
      parse (7 :: outgrown.bytes) = .ok (outgrown.withSize 45, 1) ∧
      (outgrown.withSize 45).toBytes = .ok ((7 :: outgrown.bytes).drop 1) ∧
      (outgrown.withSize 45).footer.size.toNat = (outgrown.withSize 45).size := by
  obtain ⟨hread, -, hwritten⟩ := parse_toBytes_round_trip
  have hwritable : outgrown.Writable := writable_iff.mpr (by decide)
  have hbytes : outgrown.toBytes = .ok outgrown.bytes := toBytes_eq_ok_iff.mpr ⟨hwritable, rfl⟩
  have hparse : parse (7 :: outgrown.bytes) = .ok (outgrown.withSize 45, 1) :=
    hwritable.parse_append (by decide) [7]
  obtain ⟨hback, hsize, -⟩ := hread _ _ _ hparse
  exact ⟨by decide, hbytes, hwritten _ _ hbytes, hparse, hback, hsize⟩

end Firmware.Meta
