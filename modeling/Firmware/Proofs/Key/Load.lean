import Firmware.Key.Save
import Firmware.Proofs.Encoding.Layout

/-!
# Reading and writing armoured keys

A written block is the only block that is read from its text (`blocksOf_encode`), and of a list of
keys that are read, a single one is taken (`single_eq_ok_iff`).  What is written is the encoding
itself, unless it is too large (`writable_eq_ok_iff`).

A passphrase is needed only for an encrypted key.  `needed_parse` says how to tell: with a terminal
that is not there, reading either comes to ask for the passphrase and fails, or it has the result
that it has with every other source.
-/

namespace Firmware.Key

theorem single_eq_ok_iff {α : Type} {missing : Error} {keys : List α} {key : α} :
    single missing keys = .ok key ↔ keys = [key] := by
  match keys with
  | [] => exact ⟨nofun, nofun⟩
  | [a] =>
      rw [single, Except.ok.injEq, List.cons.injEq, and_iff_left rfl]
  | a :: b :: keys => exact ⟨nofun, nofun⟩

theorem blocksOf_eq_ok_iff {data : Bytes} {blocks : List Pem.Block} :
    blocksOf data = .ok blocks ↔ Pem.decodeAll data = .ok blocks := mapError_eq_ok_iff

theorem blocksOf_encode {label content : Bytes} (hlabel : Pem.Fits label) (hcontent : content ≠ []) :
    blocksOf (Bytes.ofText (Pem.encode ⟨Bytes.ascii label, content⟩)) =
      .ok [⟨Bytes.ascii label, content⟩] :=
  blocksOf_eq_ok_iff.mpr (Pem.decodeAll_encode hlabel hcontent)

theorem writable_eq_ok_iff {error : Error} {bytes der : Bytes} :
    writable error bytes = .ok der ↔ bytes.length ≤ Der.maxSize ∧ bytes = der := by
  rw [writable, then_eq_ok_iff, Except.ok.injEq]

/-! ## The need of a passphrase -/

/-- A reader that fails without a terminal if it needs the passphrase, and otherwise gives the same
result for every source. -/
def Needed {α : Type} (read : Passphrase → Except Error α) : Prop :=
  read .silent = .error .notInteractive ∨ ∀ source, read source = read .silent

theorem Needed.const {α : Type} (r : Except Error α) : Needed fun _ => r := .inr fun _ => rfl

theorem Needed.bind {α β : Type} {read : Passphrase → Except Error α}
    {next : Passphrase → α → Except Error β} (hread : Needed read)
    (hnext : ∀ a, Needed (next · a)) : Needed fun source => read source >>= next source := by
  rcases hread with hneeded | hsame
  · left
    show read .silent >>= next .silent = _
    rw [hneeded]
    rfl
  · cases hresult : read .silent with
    | error e =>
        refine .inr fun source => ?_
        show read source >>= next source = read .silent >>= next .silent
        rw [hsame source, hresult]
        rfl
    | ok a =>
        rcases hnext a with hneeded | hsame'
        · left
          show read .silent >>= next .silent = _
          rw [hresult]
          exact hneeded
        · refine .inr fun source => ?_
          show read source >>= next source = read .silent >>= next .silent
          rw [hsame source, hresult]
          exact hsame' source

theorem Needed.mapM {α β : Type} {read : Passphrase → α → Except Error β}
    (hread : ∀ a, Needed (read · a)) (as : List α) :
    Needed fun source => as.mapM (read source) := by
  induction as with
  | nil => exact .const (.ok [])
  | cons a as ih =>
      simp only [List.mapM_cons]
      exact (hread a).bind fun b => ih.bind fun bs => .const (.ok (b :: bs))

theorem needed_encryptedOf (der : Bytes) : Needed (encryptedOf der) := by
  unfold encryptedOf
  split
  · exact .const (.error .loadEncrypted)
  · exact .inl rfl

theorem needed_blockKeyOf (block : Pem.Block) : Needed (blockKeyOf · block) := by
  unfold blockKeyOf
  split
  · exact .const _
  · exact .const _
  · exact .const _
  · exact .const _
  · exact (needed_encryptedOf block.content).bind fun key => .const (.ok (some key))
  · exact .const _

theorem needed_parse (data : Bytes) : Needed (SigningKey.parse data) := by
  unfold SigningKey.parse
  split
  · refine (Needed.const (blocksOf data)).bind fun blocks => ?_
    exact (Needed.mapM needed_blockKeyOf blocks).bind fun keys =>
      .const (single .unrecognized keys.reduceOption)
  · exact .const (bareKeyOf data)

end Firmware.Key
