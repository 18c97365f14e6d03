import Firmware.Meta.Digest
import Firmware.Proofs.Bytes

/-!
# Putting a region into a binary

`Meta.splice` puts the bytes of a region into a binary at an offset and fills the binary up where it
is too short.  By `splice_eq` the result has three parts: what was before the region, the region, and
what was behind it.

So the region is found in its place, `slice_splice`; outside of it nothing changes,
`getElem?_splice_of_outside`; a second region of the same size leaves no trace of the first one,
`splice_splice`; and a patch of the binary inside of the region is a patch of the region,
`overwrite_splice`.
-/

namespace Firmware.Meta

open Bytes (overwrite resize slice)

variable {carrier region : Bytes} {offset : Nat} {erase : UInt8}

theorem getElem?_resize {n i : Nat} (fill : UInt8) (bs : Bytes) (hi : i < n) :
    (resize n fill bs)[i]? = some (bs[i]?.getD fill) := by
  have htake : (bs.take n).length = min n bs.length := List.length_take
  by_cases h : i < bs.length
  · rw [resize, List.getElem?_append_left (by omega), List.getElem?_take_of_lt hi,
      List.getElem?_eq_getElem h]
    rfl
  · rw [resize, List.getElem?_append_right (by omega), List.getElem?_replicate_of_lt (by omega),
      List.getElem?_eq_none (Nat.le_of_not_lt h)]
    rfl

/-- The three parts of a binary with a region in its place. -/
theorem splice_eq (carrier : Bytes) (offset : Nat) (erase : UInt8) (region : Bytes) :
    splice carrier offset erase region =
      resize offset erase carrier ++ region ++ carrier.drop (offset + region.length) := by
  have htake : (Bytes.extendTo (offset + region.length) erase carrier).take offset =
      resize offset erase carrier := by
    rw [Bytes.extendTo, resize, List.take_append, List.take_replicate]
    congr 2
    omega
  have hdrop : (Bytes.extendTo (offset + region.length) erase carrier).drop
      (offset + region.length) = carrier.drop (offset + region.length) := by
    rw [Bytes.extendTo, List.drop_append, List.drop_replicate, Nat.sub_self, List.replicate_zero,
      List.append_nil]
  rw [splice, overwrite, htake, hdrop]

theorem length_front :
    (resize offset erase carrier ++ region).length = offset + region.length := by
  rw [List.length_append, Bytes.length_resize]

theorem drop_splice :
    (splice carrier offset erase region).drop (offset + region.length) =
      carrier.drop (offset + region.length) := by
  rw [splice_eq, ← length_front, List.drop_left]

theorem length_splice :
    (splice carrier offset erase region).length = max carrier.length (offset + region.length) := by
  simp only [splice_eq, List.length_append, Bytes.length_resize, List.length_drop]
  omega

theorem slice_splice :
    slice (splice carrier offset erase region) offset (offset + region.length) = region := by
  have h := Bytes.slice_append (resize offset erase carrier) region
    (carrier.drop (offset + region.length))
  rwa [Bytes.length_resize, ← splice_eq] at h

/-- Outside of the region a binary is what it was, filled up before a region behind its end. -/
theorem getElem?_splice_of_outside {i : Nat} (hi : i < (splice carrier offset erase region).length)
    (hout : i < offset ∨ offset + region.length ≤ i) :
    (splice carrier offset erase region)[i]? = some (carrier[i]?.getD erase) := by
  have hfront : (resize offset erase carrier ++ region).length = offset + region.length :=
    length_front
  rcases hout with hout | hout
  · rw [splice_eq, List.append_assoc, List.getElem?_append_left, getElem?_resize erase _ hout]
    rwa [Bytes.length_resize]
  · have hcarrier : i < carrier.length := by
      rw [length_splice] at hi
      omega
    rw [splice_eq, List.getElem?_append_right (by omega), List.getElem?_drop, hfront,
      Nat.add_sub_cancel' hout, List.getElem?_eq_getElem hcarrier]
    rfl

/-- A region covers an earlier one of the same size. -/
theorem splice_splice {region' : Bytes} (h : region'.length = region.length) (erase' : UInt8) :
    splice (splice carrier offset erase region) offset erase' region' =
      splice carrier offset erase region' := by
  rw [splice_eq _ offset erase' region', h, drop_splice, splice_eq carrier offset erase region,
    List.append_assoc _ region, Bytes.resize_append erase' _ (Bytes.length_resize _ _ _),
    splice_eq carrier offset erase region', h]

/-- What a binary has in the place of the region plays no part. -/
theorem splice_congr {carrier' : Bytes}
    (h : ∀ i, i < offset ∨ offset + region.length ≤ i → carrier'[i]? = carrier[i]?) :
    splice carrier' offset erase region = splice carrier offset erase region := by
  have hfront : resize offset erase carrier' = resize offset erase carrier := by
    apply List.ext_getElem?
    intro i
    by_cases hi : i < offset
    · rw [getElem?_resize erase _ hi, getElem?_resize erase _ hi, h i (.inl hi)]
    · rw [List.getElem?_eq_none, List.getElem?_eq_none]
      · rw [Bytes.length_resize]
        omega
      · rw [Bytes.length_resize]
        omega
  have hback : carrier'.drop (offset + region.length) = carrier.drop (offset + region.length) := by
    apply List.ext_getElem?
    intro i
    rw [List.getElem?_drop, List.getElem?_drop, h _ (.inr (Nat.le_add_right _ _))]
  rw [splice_eq, splice_eq, hfront, hback]

/-- A patch inside of the region is a patch of the region. -/
theorem overwrite_splice {place : Nat} {patch : Bytes} (h : place + patch.length ≤ region.length) :
    overwrite (splice carrier offset erase region) (offset + place) patch =
      splice carrier offset erase (overwrite region place patch) := by
  have hinside := Bytes.overwrite_append_inside (resize offset erase carrier)
    (carrier.drop (offset + region.length)) h
  rw [Bytes.length_resize] at hinside
  rw [splice_eq, splice_eq, Bytes.length_overwrite h, hinside]

/-- A part of the region as a part of the binary. -/
theorem slice_splice_inside {start stop : Nat} (hstart : start ≤ stop)
    (hstop : stop ≤ region.length) :
    slice (splice carrier offset erase region) (offset + start) (offset + stop) =
      slice region start stop := by
  have hcut := Bytes.take_append_slice_append_drop region start stop hstart
  have hfront : (resize offset erase carrier ++ region.take start).length = offset + start := by
    rw [List.length_append, Bytes.length_resize, List.length_take]
    omega
  have hlength : (slice region start stop).length = stop - start := by
    rw [slice, List.length_take, List.length_drop]
    omega
  have hbinary : splice carrier offset erase region =
      (resize offset erase carrier ++ region.take start) ++ slice region start stop ++
        (region.drop stop ++ carrier.drop (offset + region.length)) := calc
    splice carrier offset erase region
    _ = resize offset erase carrier ++
          (region.take start ++ slice region start stop ++ region.drop stop) ++
          carrier.drop (offset + region.length) := by rw [hcut, splice_eq]
    _ = _ := by simp only [List.append_assoc]
  have hstops : offset + stop = offset + start + (slice region start stop).length := by
    rw [hlength]
    omega
  rw [hbinary, ← hfront, hstops, ← hfront, Bytes.slice_append]

end Firmware.Meta
