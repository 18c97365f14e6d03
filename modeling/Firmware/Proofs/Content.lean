import Firmware.Content
import Firmware.Proofs.Except

/-!
# The part before the TLVs

`Content.Fits` says that the sizes in a header are those of the padding and the body.  Writing
checks exactly that, `check_eq_ok_iff`, and splitting a file yields exactly such parts,
`split_eq_ok_iff`.
-/

namespace Firmware.Content

/-- The sizes in a header are those of the padding and the body. -/
structure Fits (headerSize : UInt16) (bodySize : UInt32) (pad body : Bytes) : Prop where
  length_pad : headerLength + pad.length = headerSize.toNat
  length_body : body.length = bodySize.toNat

variable {headerSize : UInt16} {bodySize : UInt32} {pad body : Bytes}

theorem check_eq_ok_iff :
    check headerSize bodySize pad body = .ok () ↔ Fits headerSize bodySize pad body := by
  unfold check
  rw [else_eq_ok_iff, else_eq_ok_iff, else_eq_ok_iff]
  constructor
  · rintro ⟨hlarge, hpad, hbody, -⟩
    exact ⟨by omega, by omega⟩
  · rintro ⟨hpad, hbody⟩
    exact ⟨by omega, by omega, by omega, rfl⟩

theorem split_eq_ok_iff {available : Nat} {bs rest : Bytes} :
    split headerSize bodySize available bs = .ok (pad, body, rest) ↔
      Fits headerSize bodySize pad body ∧ bs = pad ++ body ++ rest := by
  constructor
  · intro h
    unfold split at h
    obtain ⟨hlarge, h⟩ := else_eq_ok_iff.mp h
    split at h
    · cases h
    · rename_i pad' rest' hpad
      split at h
      · cases h
      · rename_i body' rest'' hbody
        cases h
        obtain ⟨rfl, hpadLen⟩ := Bytes.splitAt?_eq_some_iff.mp hpad
        obtain ⟨rfl, hbodyLen⟩ := Bytes.splitAt?_eq_some_iff.mp hbody
        exact ⟨⟨by omega, hbodyLen⟩, (List.append_assoc _ _ _).symm⟩
  · rintro ⟨⟨hpad, hbody⟩, rfl⟩
    have hfirst : Bytes.splitAt? (headerSize.toNat - headerLength) (pad ++ body ++ rest) =
        some (pad, body ++ rest) :=
      Bytes.splitAt?_eq_some_iff.mpr ⟨List.append_assoc _ _ _, by omega⟩
    have hsecond : Bytes.splitAt? bodySize.toNat (body ++ rest) = some (body, rest) :=
      Bytes.splitAt?_eq_some_iff.mpr ⟨rfl, hbody⟩
    rw [split, if_neg (by omega), hfirst]
    simp only [hsecond]

end Firmware.Content
