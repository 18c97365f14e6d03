import Firmware.Crypto.Scrypt
import Firmware.Proofs.Bytes

/-!
# Sizes of derived keys

A key that is derived from a password has the size that was asked for.
-/

namespace Firmware.Crypto

theorem length_hmac_sha256 (key message : Bytes) : (hmac .sha256 key message).length = 32 :=
  length_sha256 _

theorem length_pbkdf2Iterate (password : Bytes) (count : Nat) {u acc : Bytes}
    (hacc : acc.length = 32) : (pbkdf2Iterate .sha256 password count u acc).length = 32 := by
  induction count generalizing u acc with
  | zero => exact hacc
  | succ count ih =>
      apply ih
      rw [Bytes.length_xor, hacc, length_hmac_sha256, Nat.min_self]

theorem length_pbkdf2 (password salt : Bytes) (iterations len : Nat) :
    (pbkdf2 .sha256 password salt iterations len).length = len := by
  have hblocks : ∀ b ∈ (List.range ((len + 32 - 1) / 32)).map (fun i =>
      pbkdf2Block .sha256 password salt iterations (i + 1)), b.length = 32 := by
    intro b hb
    obtain ⟨i, -, rfl⟩ := List.mem_map.mp hb
    exact length_pbkdf2Iterate password _ (length_hmac_sha256 _ _)
  have hlength := Bytes.length_flatten_of_length hblocks
  rw [List.length_map, List.length_range] at hlength
  have hsize : HashFunction.sha256.digestSize = 32 := rfl
  rw [pbkdf2, hsize, List.length_take, List.flatMap_def, hlength]
  omega

theorem length_scrypt (password salt : Bytes) (n r p len : Nat) :
    (scrypt password salt n r p len).length = len :=
  length_pbkdf2 _ _ _ _

end Firmware.Crypto
