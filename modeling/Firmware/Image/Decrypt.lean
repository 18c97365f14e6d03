import Firmware.Image.Basic
import Firmware.Secret

/-!
# Decrypting images

The plaintext body of an encrypted image, and the image with that body.  Hash and signatures stay as
they are: they cover the header as it was built, with the encryption flag, so that they hold for
the encrypted image only.
-/

namespace Firmware.Image

/-- The one wrapped secret in an image. -/
def wrappedSecret (img : Image) : Except Secret.Error Tlv :=
  match img.tlvs.filter fun t => Tlv.isSecret t.tag with
  | [t] => .ok t
  | ts => .error (.secretCount ts.length)

def decryptedBody (img : Image) (key : Secret.UnwrapKey) : Except Secret.Error Bytes :=
  if img.header.isEncrypted then do
    let secret ← key.unwrap (← img.wrappedSecret)
    return Secret.crypt secret img.body
  else .error .notEncrypted

/-- The image with its body in plaintext, without the encryption flag and the wrapped secret. -/
def decrypt (img : Image) (key : Secret.UnwrapKey) : Except Secret.Error Image := do
  let body ← img.decryptedBody key
  let (kept, _) := img.withoutTlvs fun t => Tlv.isSecret t.tag
  return { kept with body, header := img.header.decrypted }

end Firmware.Image
