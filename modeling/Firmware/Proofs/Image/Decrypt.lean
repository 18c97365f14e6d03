import Firmware.Image.Decrypt
import Firmware.Proofs.Secret

/-!
# What decryption takes and what it changes

The body of an encrypted image is decrypted with the secret in its one wrapped secret,
`decryptedBody_eq_ok_iff`, and nothing else of the image changes but the flag that says so and that
value, `decrypt_eq_ok_iff`.
-/

namespace Firmware.Image

variable {img img' : Image} {key : Secret.UnwrapKey} {body : Bytes}

theorem decryptedBody_eq_ok_iff :
    img.decryptedBody key = .ok body ↔
      img.header.isEncrypted = true ∧ ∃ t secret, img.wrappedSecret = .ok t ∧
        key.unwrap t = .ok secret ∧ Secret.crypt secret img.body = body := by
  unfold decryptedBody
  rw [then_eq_ok_iff]
  constructor
  · rintro ⟨hflag, h⟩
    obtain ⟨t, ht, h⟩ := bind_eq_ok_iff.mp h
    obtain ⟨secret, hsecret, h⟩ := bind_eq_ok_iff.mp h
    exact ⟨hflag, t, secret, ht, hsecret, Except.ok.inj h⟩
  · rintro ⟨hflag, t, secret, ht, hsecret, rfl⟩
    exact ⟨hflag, bind_eq_ok_iff.mpr ⟨t, ht, bind_eq_ok_iff.mpr ⟨secret, hsecret, rfl⟩⟩⟩

theorem length_decryptedBody (h : img.decryptedBody key = .ok body) :
    body.length = img.body.length := by
  obtain ⟨-, _, secret, -, -, rfl⟩ := decryptedBody_eq_ok_iff.mp h
  exact Secret.length_crypt secret img.body

theorem decrypt_eq_ok_iff :
    img.decrypt key = .ok img' ↔
      ∃ body, img.decryptedBody key = .ok body ∧
        { header := img.header.decrypted, pad := img.pad, body,
          tlvs := img.tlvs.filter fun t => !Tlv.isSecret t.tag } = img' := by
  unfold decrypt
  rw [bind_eq_ok_iff]
  constructor
  · rintro ⟨body, hbody, h⟩
    exact ⟨body, hbody, Except.ok.inj h⟩
  · rintro ⟨body, hbody, rfl⟩
    exact ⟨body, hbody, rfl⟩

end Firmware.Image
