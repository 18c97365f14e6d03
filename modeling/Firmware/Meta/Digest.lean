import Firmware.Crypto.Sha256
import Firmware.Meta.Format

/-!
# The digest of a carrying binary

The digest in a meta region covers the whole binary that carries the region, with the region in
place and the 32 digest bytes zero.  `Meta.rehash` computes it and puts it into both the region and
the binary; the old digest, and whatever the binary had in the place of the region, play no part.
-/

namespace Firmware.Meta

/-- The region with other data in the value at a place. -/
def setData (m : Meta) (index : Nat) (data : Bytes) : Meta :=
  { m with items := m.items.modify index fun t => { t with data } }

/-- The region with a digest of zeros. -/
def clearHash (m : Meta) : Except Error Meta :=
  match m.hashIndex with
  | .error e => .error e
  | .ok i => .ok (m.setData i (Bytes.zeros hashLength))

/-- The binary with the bytes of a region in place, filled up with `erase` if it is too short. -/
def splice (carrier : Bytes) (offset : Nat) (erase : UInt8) (region : Bytes) : Bytes :=
  Bytes.overwrite (Bytes.extendTo (offset + region.length) erase carrier) offset region

/-- The region with its digest recomputed for a binary that carries it at `offset`, and that
binary. -/
def rehash (m : Meta) (offset : Nat) (carrier : Bytes) (erase : UInt8) :
    Except Error (Meta × Bytes) := do
  let index ← m.hashIndex
  let cleared := m.setData index (Bytes.zeros hashLength)
  let region ← cleared.toBytes
  let binary := splice carrier offset erase region
  let digest := Crypto.sha256 binary
  let place := offset + cleared.offsets.items.getD index 0 + 2
  return (cleared.setData index digest, Bytes.overwrite binary place digest)

/-- Whether the stored digest is that of the binary that carries the region at `offset`.  The binary
contains the region, so no byte is ever filled in. -/
def isCurrent (m : Meta) (offset : Nat) (carrier : Bytes) : Except Error Bool := do
  let (fresh, _) ← m.rehash offset carrier 0xff
  return (← fresh.hash) == (← m.hash)

end Firmware.Meta
