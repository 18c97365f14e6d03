import Firmware.Build
import Firmware.Bytes
import Firmware.Command.Basic
import Firmware.Command.Binaries
import Firmware.Command.Host
import Firmware.Command.Images
import Firmware.Command.Keys
import Firmware.Command.Options
import Firmware.Command.Run
import Firmware.Command.Workspace
import Firmware.Content
import Firmware.Crypto.Aes
import Firmware.Crypto.AesModes
import Firmware.Crypto.Curve
import Firmware.Crypto.Ecdsa
import Firmware.Crypto.Ed25519
import Firmware.Crypto.Hash
import Firmware.Crypto.Hmac
import Firmware.Crypto.KeyWrap
import Firmware.Crypto.Modular
import Firmware.Crypto.Pbkdf2
import Firmware.Crypto.Rsa
import Firmware.Crypto.RsaPadding
import Firmware.Crypto.RsaSearch
import Firmware.Crypto.Schedule
import Firmware.Crypto.Scrypt
import Firmware.Crypto.Sha256
import Firmware.Crypto.Sha512
import Firmware.Encoding.Base64
import Firmware.Encoding.Der
import Firmware.Encoding.Oid
import Firmware.Encoding.Pem
import Firmware.Factory.Action
import Firmware.Factory.Areas
import Firmware.Factory.Region
import Firmware.Factory.Replace
import Firmware.Flags
import Firmware.Flash.AreaList
import Firmware.Flash.Layout
import Firmware.Hex
import Firmware.Image.Basic
import Firmware.Image.Decrypt
import Firmware.Image.Format
import Firmware.Image.Structure
import Firmware.Key.Basic
import Firmware.Key.Encrypted
import Firmware.Key.Load
import Firmware.Key.Save
import Firmware.Key.Signature
import Firmware.Key.Structure
import Firmware.Legacy.Basic
import Firmware.Legacy.Format
import Firmware.Main
import Firmware.Meta.Basic
import Firmware.Meta.Digest
import Firmware.Meta.Format
import Firmware.Proofs.Bytes
import Firmware.Proofs.Content
import Firmware.Proofs.Image.Format
import Firmware.Proofs.Sink
import Firmware.Proofs.Tlv
import Firmware.Random
import Firmware.Secret
import Firmware.Sink
import Firmware.Text.Blank
import Firmware.Text.Printable
import Firmware.Text.Quoted
import Firmware.Tlv
import Firmware.Toml.Document
import Firmware.Toml.Lexeme
import Firmware.Toml.Report
import Firmware.Toml.Value
import Firmware.Verify
import Firmware.Version
import Firmware.Proofs.Run
import Firmware.Proofs.Verify
import Firmware.Proofs.Command.Session
import Firmware.Proofs.Command.Verify
import Firmware.Proofs.Build
import Firmware.Proofs.Build.Outcome
import Firmware.Proofs.Build.Encrypted
import Firmware.Proofs.Crypto.Sha256
import Firmware.Proofs.Build.Verified
import Firmware.Proofs.Meta.Format
import Firmware.Proofs.Meta.Digest
import Firmware.Proofs.Factory.Replace
import Firmware.Proofs.Factory.Action
import Firmware.Proofs.Command.Workspace
import Firmware.Proofs.Command.Binaries
import Firmware.Proofs.Binding
import Firmware.Proofs.Flash.Layout
import Firmware.Proofs.Bytes.Erased
import Firmware.Proofs.Factory.Join
import Firmware.Proofs.Factory.Split
import Firmware.Proofs.Verify.Signers
import Firmware.Proofs.Build.Legacy
import Firmware.Proofs.Image.Reachable
import Firmware.Proofs.Build.Randomness
import Firmware.Proofs.Image.Grammar
import Firmware.Proofs.Flash.Problems
import Firmware.Proofs.Bytes.Text
import Firmware.Proofs.Encoding.Base64
import Firmware.Proofs.Encoding.Pem
import Firmware.Proofs.Crypto.Curve
import Firmware.Proofs.Key.Structure
import Firmware.Proofs.Key.Load
import Firmware.Proofs.Key.PublicKey
import Firmware.Proofs.Crypto.Scrypt
import Firmware.Proofs.Key.Encrypted
import Firmware.Proofs.Key.PrivateKey
import Firmware.Proofs.Command.Keys
import Firmware.Proofs.Factory.Kek
import Firmware.Proofs.Factory.Occurrence
import Firmware.Proofs.Factory.Joinable
import Firmware.Proofs.Key.NamedCurve
import Firmware.Proofs.Image.Frame
import Firmware.Proofs.Hex
import Firmware.Proofs.Build.SelfCheck
import Firmware.Proofs.Key.Slot
import Firmware.Proofs.Factory.Repeated
import Firmware.Proofs.Truncation
import Firmware.Proofs.Secret.RsaSize
import Firmware.Proofs.Text.Trim
import Firmware.Proofs.Key.PlainText
import Firmware.Proofs.Secret.Kind
import Firmware.Proofs.Encoding.Layout
import Firmware.Proofs.Key.Layout
import Firmware.Proofs.Encoding.Minimal
import Firmware.Proofs.Key.SlotSize
import Firmware.Proofs.Extent
import Firmware.Proofs.Placed
import Firmware.Proofs.Offsets
import Firmware.Proofs.Command.Show
import Firmware.Proofs.Checked
import Firmware.Proofs.Version
