import Firmware.Bytes

/-!
# Text as bytes

`ofText_eq` : the bytes of a text are the encodings of its characters, one after the other.  A text
is put together from parts in the same way as its bytes (`ofText_append`, `ofText_join`), and it
is found again in them (`toText?_ofText`).  A character below 128 is one byte, so a byte string of
such bytes is the encoding of a text (`ofText_ascii`).
-/

namespace Firmware.Bytes

/-- The bytes from place `i` on, behind those collected so far. -/
theorem toList_loop_eq (bs : ByteArray) (i : Nat) (acc : Bytes) :
    ByteArray.toList.loop bs i acc = acc.reverse ++ bs.data.toList.drop i := by
  induction i, acc using ByteArray.toList.loop.induct bs with
  | case1 i acc hlt ih =>
      have hi : i < bs.data.toList.length := hlt
      have hget : bs.get! i = bs.data.toList[i] := getElem!_pos bs.data i hlt
      rw [ByteArray.toList.loop, if_pos hlt, ih, List.drop_eq_getElem_cons hi, hget,
        List.reverse_cons, List.append_assoc, List.singleton_append]
  | case2 i acc hge =>
      have hi : bs.data.toList.length ≤ i := Nat.le_of_not_lt hge
      rw [ByteArray.toList.loop, if_neg hge, List.drop_eq_nil_of_le hi, List.append_nil]

theorem ofText_eq (s : String) : ofText s = s.toList.flatMap String.utf8EncodeChar := by
  have hencode : s.toUTF8 = (s.toList.flatMap String.utf8EncodeChar).toByteArray :=
    String.utf8Encode_toList.symm
  have hbytes : s.toUTF8.toList = s.toUTF8.data.toList := toList_loop_eq s.toUTF8 0 []
  rw [ofText, hbytes, hencode, List.toList_data_toByteArray]

theorem toText?_ofText (s : String) : toText? (ofText s) = some s := by
  have hbytes : (⟨(ofText s).toArray⟩ : ByteArray) = s.toByteArray := by
    have hlist : ofText s = s.toByteArray.data.toList := toList_loop_eq s.toByteArray 0 []
    rw [hlist, Array.toArray_toList]
  rw [toText?, hbytes]
  exact dif_pos s.isValidUTF8

theorem ofText_append (s t : String) : ofText (s ++ t) = ofText s ++ ofText t := by
  rw [ofText_eq, ofText_eq, ofText_eq, String.toList_append, List.flatMap_append]

theorem ofText_join (parts : List String) : ofText (String.join parts) = parts.flatMap ofText := by
  induction parts with
  | nil =>
      rw [ofText_eq]
      rfl
  | cons s parts ih => rw [String.join_cons, ofText_append, ih, List.flatMap_cons]

/-! ## ASCII -/

/-- The text whose characters have the given codes. -/
def ascii (bs : Bytes) : String := String.ofList (bs.map fun b => Char.ofNat b.toNat)

theorem utf8EncodeChar_of_lt {b : UInt8} (h : b < 128) :
    String.utf8EncodeChar (Char.ofNat b.toNat) = [b] := by
  have hall : ∀ i : Fin 128, String.utf8EncodeChar (Char.ofNat i.val) = [UInt8.ofNat i.val] := by
    decide
  have hb := hall ⟨b.toNat, h⟩
  rwa [UInt8.ofNat_toNat] at hb

theorem ofText_ascii {bs : Bytes} (h : ∀ b ∈ bs, b < 128) : ofText (ascii bs) = bs := by
  rw [ofText_eq, ascii, String.toList_ofList]
  induction bs with
  | nil => rfl
  | cons b bs ih =>
      rw [List.forall_mem_cons] at h
      rw [List.map_cons, List.flatMap_cons, utf8EncodeChar_of_lt h.1, ih h.2]
      rfl

/-- The bytes of a text that is given by the codes of its characters. -/
theorem ofText_of_eq_ascii {s : String} {bs : Bytes} (hs : s = ascii bs)
    (h : bs.all (· < 128) = true) : ofText s = bs := by
  rw [List.all_eq_true] at h
  rw [hs, ofText_ascii fun b hb => of_decide_eq_true (h b hb)]

end Firmware.Bytes
