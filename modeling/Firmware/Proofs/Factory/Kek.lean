import Firmware.Proofs.Factory.Replace

/-!
# A key-encryption key in its slot

`replaceKek_iff_fitsSlot` : when a key-encryption key is replaced, what the binary is then, byte by
byte, and that it is what it was when the replacement fails.

A binary in which a key is found consists of what is before the key, the key, and what is behind it.
Each write puts something of the same length in the place of one of these parts, so on the parts a
replacement is easy to follow: `Swaps` has one constructor for a key of the old length and one for a
shorter key, which takes the last bytes before the key as its length field.  All the rest is read
off this description.
-/

namespace Firmware.Factory

open Bytes (overwrite slice zeros ofNatLE toNatLE)

/-- A binary with one key, and the same binary with another key in the slot of the first. -/
inductive Swaps (old new : Bytes) : Nat → Bytes → Bytes → Prop where
  | inPlace (front back : Bytes) : new.length = old.length →
      Swaps old new front.length (front ++ old ++ back) (front ++ new ++ back)
  | shortened (front field back : Bytes) : new.length < old.length →
      field.length = lengthFieldSize → toNatLE field = old.length →
      Swaps old new (front ++ field).length (front ++ field ++ old ++ back)
        (front ++ ofNatLE lengthFieldSize new.length ++
          (new ++ zeros (old.length - new.length)) ++ back)

variable {old new binary edited front field back : Bytes} {offset : Nat}

/-! ## The steps -/

/-- The last bytes before a key as a part of their own. -/
theorem exists_field (h : lengthFieldSize ≤ front.length) :
    ∃ before field, front = before ++ field ∧ field.length = lengthFieldSize := by
  refine ⟨front.take (front.length - lengthFieldSize), front.drop (front.length - lengthFieldSize),
    (List.take_append_drop _ _).symm, ?_⟩
  rw [List.length_drop]
  omega

section Field

variable (hfield : field.length = lengthFieldSize)

include hfield

theorem start_field : (front ++ field).length - lengthFieldSize = front.length := by
  rw [List.length_append, hfield, Nat.add_sub_cancel]

theorem slice_field :
    slice (front ++ field ++ back) ((front ++ field).length - lengthFieldSize)
      (front ++ field).length = field := by
  rw [start_field hfield, List.length_append]
  exact Bytes.slice_append front field back

theorem length_append_field (n : Nat) :
    (front ++ ofNatLE lengthFieldSize n).length = (front ++ field).length := by
  rw [List.length_append, List.length_append, Bytes.length_ofNatLE, hfield]

end Field

namespace Edit

/-- A slot in the middle of a binary is filled with a key and zeros. -/
theorem yields_fillSlot {slot key : Bytes} {u : Unit} (hfront : front.length = offset)
    (hkey : key.length ≤ slot.length) :
    Yields (Edit.fillSlot offset slot.length key) (front ++ slot ++ back) u edited ↔
      front ++ (key ++ zeros (slot.length - key.length)) ++ back = edited := by
  subst hfront
  have hslot : front ++ slot ++ back =
      front ++ slot.take key.length ++ (slot.drop key.length ++ back) := by
    rw [List.append_assoc, List.append_assoc, ← List.append_assoc (slot.take _),
      List.take_append_drop]
  have hwrite : overwrite (front ++ slot ++ back) front.length key =
      front ++ key ++ slot.drop key.length ++ back := by
    rw [hslot, Bytes.overwrite_append, List.append_assoc (front ++ key)]
    rw [List.length_take, Nat.min_eq_left hkey]
  have hfill : overwrite (front ++ key ++ slot.drop key.length ++ back)
      (front.length + key.length) (zeros (slot.length - key.length)) =
        front ++ (key ++ zeros (slot.length - key.length)) ++ back := by
    rw [← List.length_append, Bytes.overwrite_append, List.append_assoc front]
    rw [Bytes.length_zeros, List.length_drop]
  simp only [Edit.fillSlot, yields_bind, yields_write]
  constructor
  · rintro ⟨_, _, rfl, h⟩
    rwa [hwrite, hfill] at h
  · intro h
    refine ⟨(), _, rfl, ?_⟩
    rwa [hwrite, hfill]

/-- A length field in the middle of a binary is changed if it holds the old length. -/
theorem yields_updateLengthField {old new : Nat} {u : Unit}
    (hfield : field.length = lengthFieldSize) :
    Yields (Edit.updateLengthField (front ++ field).length old new) (front ++ field ++ back) u
        edited ↔
      toNatLE field = old ∧ front ++ ofNatLE lengthFieldSize new ++ back = edited := by
  have hroom : ¬(front ++ field).length < lengthFieldSize := by
    rw [List.length_append, hfield]
    exact Nat.not_lt_of_le (Nat.le_add_left _ _)
  have hwrite : overwrite (front ++ field ++ back) front.length (ofNatLE lengthFieldSize new) =
      front ++ ofNatLE lengthFieldSize new ++ back :=
    Bytes.overwrite_append _ _ (by rw [Bytes.length_ofNatLE, hfield])
  rw [Edit.updateLengthField, if_neg hroom, yields_bind]
  constructor
  · rintro ⟨_, _, hget, h⟩
    obtain ⟨rfl, rfl⟩ := yields_get.mp hget
    dsimp only at h
    rw [slice_field hfield] at h
    split at h
    · exact absurd h not_yields_throw
    · rename_i hold
      rw [yields_write, start_field hfield, hwrite] at h
      exact ⟨Decidable.not_not.mp hold, h⟩
  · rintro ⟨hold, h⟩
    refine ⟨_, _, yields_get.mpr ⟨rfl, rfl⟩, ?_⟩
    dsimp only
    rw [slice_field hfield, if_neg (not_not_intro hold), yields_write, start_field hfield, hwrite]
    exact h

theorem not_yields_updateLengthField {old new : Nat} {u : Unit} (h : offset < lengthFieldSize) :
    ¬Yields (Edit.updateLengthField offset old new) binary u edited := by
  rw [Edit.updateLengthField, if_pos h]
  exact not_yields_throw

end Edit

/-! ## A whole replacement -/

/-- A replacement swaps the key that it finds. -/
theorem yields_replaceKek :
    Yields (Edit.replaceKek old new) binary () edited ↔
      ∃ offset, findUnique binary old = .ok offset ∧ Swaps old new offset binary edited := by
  unfold Edit.replaceKek
  constructor
  · intro h
    split at h
    · exact absurd h not_yields_throw
    · rename_i hlength
      have hkey : new.length ≤ old.length := Nat.le_of_not_lt hlength
      obtain ⟨offset, _, hfind, h⟩ := yields_bind.mp h
      obtain ⟨hfound, rfl⟩ := Edit.yields_find.mp hfind
      refine ⟨offset, hfound, ?_⟩
      obtain ⟨front, back, rfl, rfl⟩ := exists_append_of_findUnique hfound
      dsimp only at h
      split at h
      · rename_i hshorter
        obtain ⟨_, changed, hupdate, hfill⟩ := yields_bind.mp h
        rcases Nat.lt_or_ge front.length lengthFieldSize with hnone | hroom
        · exact absurd hupdate (Edit.not_yields_updateLengthField hnone)
        · obtain ⟨before, field, rfl, hfield⟩ := exists_field hroom
          rw [List.append_assoc, Edit.yields_updateLengthField hfield, ← List.append_assoc]
            at hupdate
          obtain ⟨hold, rfl⟩ := hupdate
          obtain rfl := (Edit.yields_fillSlot (length_append_field hfield _) hkey).mp hfill
          exact .shortened before field back (Nat.lt_of_le_of_ne hkey hshorter) hfield hold
      · rename_i hsame
        have hsame := Decidable.not_not.mp hsame
        obtain rfl := (Edit.yields_fillSlot rfl hkey).mp h
        rw [hsame, Nat.sub_self, zeros, List.replicate_zero, List.append_nil]
        exact .inPlace front back hsame
  · rintro ⟨offset, hfound, hswaps⟩
    cases hswaps with
    | inPlace front back hsame =>
        rw [if_neg (Nat.not_lt_of_le (Nat.le_of_eq hsame))]
        refine yields_bind.mpr ⟨_, _, Edit.yields_find.mpr ⟨hfound, rfl⟩, ?_⟩
        rw [if_neg (not_not_intro hsame), Edit.yields_fillSlot rfl (Nat.le_of_eq hsame), hsame,
          Nat.sub_self, zeros, List.replicate_zero, List.append_nil]
    | shortened front field back hshorter hfield hold =>
        rw [if_neg (Nat.not_lt_of_lt hshorter)]
        refine yields_bind.mpr ⟨_, _, Edit.yields_find.mpr ⟨hfound, rfl⟩, ?_⟩
        rw [if_pos (Nat.ne_of_lt hshorter)]
        refine yields_bind.mpr
          ⟨(), front ++ ofNatLE lengthFieldSize new.length ++ old ++ back, ?_, ?_⟩
        · rw [List.append_assoc, Edit.yields_updateLengthField hfield, ← List.append_assoc]
          exact ⟨hold, rfl⟩
        · have hstart := @length_append_field front field hfield new.length
          exact (Edit.yields_fillSlot hstart (Nat.le_of_lt hshorter)).mpr rfl

/-! ## Byte by byte -/

theorem slice_middle {a b : Bytes} {start size : Nat} (ha : a.length = start)
    (hb : b.length = size) (back : Bytes) : slice (a ++ b ++ back) start (start + size) = b := by
  rw [← ha, ← hb]
  exact Bytes.slice_append a b back

/-- A key fits the slot of another one that stands at an offset: it has the same length, or there is
a length field before the slot that holds the length of the other one. -/
def FitsSlot (old new : Bytes) (offset : Nat) (binary : Bytes) : Prop :=
  new.length = old.length ∨
    (lengthFieldSize ≤ offset ∧
      toNatLE (slice binary (offset - lengthFieldSize) offset) = old.length)

/-- The slot holds the new key and zeros behind it, the length field before it the length of a
shorter key, and every other byte is as it was. -/
structure Replaced (old new : Bytes) (offset : Nat) (binary edited : Bytes) : Prop where
  length : edited.length = binary.length
  slot : slice edited offset (offset + old.length) = new ++ zeros (old.length - new.length)
  field : new.length < old.length →
    slice edited (offset - lengthFieldSize) offset = ofNatLE lengthFieldSize new.length ∧
      toNatLE (slice edited (offset - lengthFieldSize) offset) = new.length
  elsewhere : ∀ i, i < offset ∨ offset + old.length ≤ i →
    (new.length < old.length → i < offset - lengthFieldSize ∨ offset ≤ i) →
    edited[i]? = binary[i]?

/-- Parts of the same length in the middle of a binary do not move what is around them. -/
theorem getElem?_swap {a b : Bytes} (h : a.length = b.length) {i : Nat}
    (hi : i < front.length ∨ front.length + b.length ≤ i) :
    (front ++ a ++ back)[i]? = (front ++ b ++ back)[i]? := by
  rw [← Bytes.overwrite_append front back h, Bytes.getElem?_overwrite_of_outside]
  · rw [List.length_append, List.length_append, h]
    exact Nat.le_add_right _ _
  · rwa [h]

theorem Swaps.replaced (h : Swaps old new offset binary edited) :
    Replaced old new offset binary edited := by
  cases h with
  | inPlace front back hsame =>
      have hnot : ¬new.length < old.length := Nat.not_lt_of_le (Nat.le_of_eq hsame.symm)
      refine ⟨?_, ?_, fun hshorter => absurd hshorter hnot, fun i hi _ => getElem?_swap hsame hi⟩
      · simp only [List.length_append, hsame]
      · rw [slice_middle rfl hsame, hsame, Nat.sub_self, zeros, List.replicate_zero,
          List.append_nil]
  | shortened front field back hshorter hfield hold =>
      have hslot : (new ++ zeros (old.length - new.length)).length = old.length := by
        rw [List.length_append, Bytes.length_zeros]
        omega
      have hsmall : new.length < 256 ^ lengthFieldSize := by
        have hbound := Bytes.toNatLE_lt field
        rw [hfield, hold] at hbound
        exact Nat.lt_trans hshorter hbound
      have hstart : (front ++ ofNatLE lengthFieldSize new.length).length =
          (front ++ field).length := length_append_field hfield _
      have hchanged : slice (front ++ ofNatLE lengthFieldSize new.length ++
          (new ++ zeros (old.length - new.length)) ++ back)
            ((front ++ field).length - lengthFieldSize) (front ++ field).length =
              ofNatLE lengthFieldSize new.length := by
        rw [List.append_assoc, ← hstart]
        exact slice_field (Bytes.length_ofNatLE _ _)
      refine ⟨?_, ?_, fun _ => ⟨hchanged, ?_⟩, fun i hi hbefore => ?_⟩
      · simp only [List.length_append, Bytes.length_ofNatLE, hfield, Bytes.length_zeros]
        omega
      · exact slice_middle hstart hslot back
      · rw [hchanged, Bytes.toNatLE_ofNatLE_of_lt hsmall]
      · -- The field and the slot are one part, whose length stays.
        have hparts : (ofNatLE lengthFieldSize new.length ++
            (new ++ zeros (old.length - new.length))).length = (field ++ old).length := by
          rw [List.length_append, hslot, List.length_append, Bytes.length_ofNatLE, hfield]
        have houtside : i < front.length ∨ front.length + (field ++ old).length ≤ i := by
          have hbefore := hbefore hshorter
          rw [start_field hfield] at hbefore
          rw [List.length_append] at hi hbefore
          rw [List.length_append]
          omega
        simpa only [List.append_assoc] using @getElem?_swap front back _ _ hparts i houtside

/-- A replacement fits, and what fits is replaced. -/
theorem exists_swaps_iff (hfound : findUnique binary old = .ok offset) :
    (∃ edited, Swaps old new offset binary edited) ↔
      new.length ≤ old.length ∧ FitsSlot old new offset binary := by
  constructor
  · rintro ⟨edited, h⟩
    cases h with
    | inPlace front back hsame => exact ⟨Nat.le_of_eq hsame, .inl hsame⟩
    | shortened front field back hshorter hfield hold =>
        refine ⟨Nat.le_of_lt hshorter, .inr ⟨?_, ?_⟩⟩
        · rw [List.length_append, hfield]
          exact Nat.le_add_left _ _
        · rw [List.append_assoc, slice_field hfield, hold]
  · rintro ⟨hkey, hfits⟩
    obtain ⟨front, back, rfl, rfl⟩ := exists_append_of_findUnique hfound
    rcases Nat.lt_or_eq_of_le hkey with hshorter | hsame
    · obtain ⟨hroom, hold⟩ := hfits.resolve_left (Nat.ne_of_lt hshorter)
      obtain ⟨before, field, rfl, hfield⟩ := exists_field hroom
      rw [List.append_assoc, slice_field hfield] at hold
      exact ⟨_, .shortened before field back hshorter hfield hold⟩
    · exact ⟨_, .inPlace front back hsame⟩

theorem exists_yields_replaceKek_iff :
    (∃ edited, Yields (Edit.replaceKek old new) binary () edited) ↔
      new.length ≤ old.length ∧
        ∃ offset, findUnique binary old = .ok offset ∧ FitsSlot old new offset binary := by
  simp only [yields_replaceKek]
  constructor
  · rintro ⟨edited, offset, hfound, hswaps⟩
    obtain ⟨hkey, hfits⟩ := (exists_swaps_iff hfound).mp ⟨edited, hswaps⟩
    exact ⟨hkey, offset, hfound, hfits⟩
  · rintro ⟨hkey, offset, hfound, hfits⟩
    obtain ⟨edited, hswaps⟩ := (exists_swaps_iff hfound).mpr ⟨hkey, hfits⟩
    exact ⟨edited, offset, hfound, hswaps⟩

/-- A key-encryption key is replaced exactly when the old one is found and the new one fits its
slot; then the slot holds the new key, and otherwise nothing has changed. -/
theorem replaceKek_iff_fitsSlot (binary old new : Bytes) :
    ((∃ edited, Yields (Edit.replaceKek old new) binary () edited) ↔
      new.length ≤ old.length ∧
        ∃ offset, findUnique binary old = .ok offset ∧ FitsSlot old new offset binary) ∧
    (∀ edited, Yields (Edit.replaceKek old new) binary () edited →
      ∃ offset, findUnique binary old = .ok offset ∧ Replaced old new offset binary edited) ∧
    ∀ e left, Fails (Edit.replaceKek old new) binary e left → left = binary := by
  refine ⟨exists_yields_replaceKek_iff, fun edited h => ?_,
    fun e left => (Edit.clean_replaceKek old new).eq_of_fails⟩
  obtain ⟨offset, hfound, hswaps⟩ := yields_replaceKek.mp h
  exact ⟨offset, hfound, hswaps.replaced⟩

namespace Shortened

def oldKey : Bytes := [1, 2, 3, 4]

def newKey : Bytes := [9, 8]

/-- A key with its length field, between erased bytes. -/
def stock : Bytes := [0xff, 4, 0, 0, 0, 1, 2, 3, 4, 0xff]

def patched : Bytes := [0xff, 2, 0, 0, 0, 9, 8, 0, 0, 0xff]

/-- The same key behind a field that is not its length. -/
def foreign : Bytes := [0xff, 5, 0, 0, 0, 1, 2, 3, 4, 0xff]

theorem yields_patched : Yields (Edit.replaceKek oldKey newKey) stock () patched := rfl

theorem fails_foreign :
    Fails (Edit.replaceKek oldKey newKey) foreign (.kekLengthMismatch 4 5) foreign := rfl

end Shortened

/-- A key gives way to a shorter one, with its length field; behind a field that is not its length
it stays. -/
theorem replaceKek_iff_fitsSlot_shortened :
    Yields (Edit.replaceKek Shortened.oldKey Shortened.newKey) Shortened.stock ()
        Shortened.patched ∧
      (∃ offset, findUnique Shortened.stock Shortened.oldKey = .ok offset ∧
        Replaced Shortened.oldKey Shortened.newKey offset Shortened.stock Shortened.patched) ∧
      ¬∃ offset, findUnique Shortened.foreign Shortened.oldKey = .ok offset ∧
        FitsSlot Shortened.oldKey Shortened.newKey offset Shortened.foreign := by
  obtain ⟨-, hreplaced, -⟩ :=
    replaceKek_iff_fitsSlot Shortened.stock Shortened.oldKey Shortened.newKey
  obtain ⟨haccepted, -, -⟩ :=
    replaceKek_iff_fitsSlot Shortened.foreign Shortened.oldKey Shortened.newKey
  refine ⟨Shortened.yields_patched, hreplaced _ Shortened.yields_patched, fun hfits => ?_⟩
  obtain ⟨edited, h⟩ := haccepted.mpr ⟨by decide, hfits⟩
  exact h.not_fails Shortened.fails_foreign

end Firmware.Factory
