import Firmware.Encoding.Pem
import Firmware.Proofs.Bytes
import Firmware.Proofs.Bytes.Text
import Firmware.Proofs.Encoding.Base64
import Firmware.Proofs.Except
import Firmware.Proofs.Text.Trim

/-!
# Armoured blocks

A written block is a list of lines: an opening, the characters in pieces of the full width, and a
closing (`ofText_encode`).  No piece has a blank or a hyphen in it, so none is taken for a boundary,
and whatever pieces the characters of a block are in, they are wrapped to the text of the written
block (`collect_block`).

The strict reader takes this text apart from both ends, and what remains in the middle are the pieces,
which it unwraps (`exists_unwrap`).  So it finds the label and the characters, whatever they were
decoded to (`decode?_written`).

`isArmoured_iff` : data are armoured when the mark of an opening stands anywhere in them.
-/

namespace Firmware.Pem

open Base64 (isPlain)

variable {label chars : Bytes}

/-! ## Marks -/

theorem beginMark_eq : beginMark = [45, 45, 45, 45, 45, 66, 69, 71, 73, 78, 32] :=
  Bytes.ofText_of_eq_ascii rfl (by decide)

theorem endMark_eq : endMark = [45, 45, 45, 45, 45, 69, 78, 68, 32] :=
  Bytes.ofText_of_eq_ascii rfl (by decide)

theorem delimiter_eq : delimiter = [45, 45, 45, 45, 45] := Bytes.ofText_of_eq_ascii rfl (by decide)

theorem isArmoured_iff {data : Bytes} : isArmoured data = true ↔ beginMark <:+: data := by
  induction data with
  | nil =>
      rw [List.infix_nil, beginMark_eq]
      exact ⟨nofun, nofun⟩
  | cons b r ih =>
      rw [isArmoured, Bool.or_eq_true, List.isPrefixOf_iff_prefix, ih, List.infix_cons_iff]

/-! ## The text of a block -/

/-- The line that opens a block. -/
def opening (label : Bytes) : Bytes := beginMark ++ label ++ delimiter

/-- The line that closes a block. -/
def closing (label : Bytes) : Bytes := endMark ++ label ++ delimiter

/-- The lines of characters, each with its end. -/
def wrap (chars : Bytes) : Bytes := (Bytes.chunks lineWidth chars).flatMap (· ++ [10])

/-- The text of a block. -/
def written (label chars : Bytes) : Bytes :=
  opening label ++ [10] ++ wrap chars ++ closing label ++ [10]

/-- A label that can stand in a boundary. -/
structure Fits (label : Bytes) : Prop where
  words : isLabel true label = true
  noHyphen : 45 ∉ label

theorem isPlain_spec {b : UInt8} (h : isPlain b = true) :
    b < 128 ∧ b ≠ 45 ∧ isBlank b = false := by
  simp only [isPlain, Bool.and_eq_true, decide_eq_true_eq, bne_iff_ne] at h
  obtain ⟨⟨hlow, hhigh⟩, hne⟩ := h
  refine ⟨UInt8.lt_trans hhigh (by decide), hne, ?_⟩
  cases hblank : isBlank b with
  | false => rfl
  | true =>
      simp only [isBlank, Bool.or_eq_true, beq_iff_eq] at hblank
      rcases hblank with (((rfl | rfl) | rfl) | rfl) | rfl <;> exact absurd hlow (by decide)

/-- No byte of a label ends a line, and all of them are characters. -/
theorem spec_of_isLabel {afterBlank : Bool} (h : isLabel afterBlank label = true) :
    ∀ b ∈ label, b < 128 ∧ b ≠ 10 := by
  induction label generalizing afterBlank with
  | nil => exact nofun
  | cons b label ih =>
      rw [isLabel] at h
      rw [List.forall_mem_cons]
      split at h
      · rename_i hblank
        rw [Bool.and_eq_true] at h
        refine ⟨?_, ih h.2⟩
        rcases hblank with rfl | rfl
        · decide
        · decide
      · simp only [Bool.and_eq_true, decide_eq_true_eq] at h
        refine ⟨⟨UInt8.lt_of_le_of_lt h.1.2 (by decide), ?_⟩, ih h.2⟩
        rintro rfl
        exact absurd h.1.1 (by decide)

theorem mem_of_mem_chunks {n : Nat} (hn : 0 < n) {bs piece : Bytes} {b : UInt8}
    (hpiece : piece ∈ Bytes.chunks n bs) (hb : b ∈ piece) : b ∈ bs := by
  rw [← Bytes.flatten_chunks hn bs]
  exact List.mem_flatten.mpr ⟨piece, hpiece, hb⟩

theorem ofText_line {line : Bytes} (h : ∀ b ∈ line, b < 128) :
    Bytes.ofText (Bytes.ascii line ++ "\n") = line ++ [10] := by
  rw [Bytes.ofText_append, Bytes.ofText_ascii h]
  exact congrArg (line ++ ·) (Bytes.ofText_of_eq_ascii rfl (by decide))

theorem ofText_encode {content : Bytes} (hlabel : Fits label) :
    Bytes.ofText (encode ⟨Bytes.ascii label, content⟩) = written label (Base64.encode content) := by
  have hascii := Bytes.ofText_ascii fun b hb => (spec_of_isLabel hlabel.words b hb).1
  have hend : Bytes.ofText "-----\n" = delimiter ++ [10] := by
    rw [delimiter_eq]
    exact Bytes.ofText_of_eq_ascii rfl (by decide)
  have hbody : Bytes.ofText (String.join ((Bytes.chunks lineWidth (Base64.encode content)).map
      fun line => Bytes.ascii line ++ "\n")) = wrap (Base64.encode content) := by
    rw [Bytes.ofText_join, List.flatMap_map, wrap, List.flatMap_def, List.flatMap_def]
    refine congrArg List.flatten (List.map_congr_left fun piece hpiece => ofText_line fun b hb => ?_)
    exact (isPlain_spec (Base64.isPlain_of_mem_encode b
      (mem_of_mem_chunks (by decide) hpiece hb))).1
  show Bytes.ofText ("-----BEGIN " ++ Bytes.ascii label ++ "-----\n" ++
    String.join ((Bytes.chunks lineWidth (Base64.encode content)).map fun line =>
      Bytes.ascii line ++ "\n") ++ ("-----END " ++ Bytes.ascii label ++ "-----\n")) = _
  simp only [Bytes.ofText_append, hascii, hbody, hend, written, opening, closing, beginMark, endMark,
    List.append_assoc]

/-! ## Collecting the lines -/

/-- A line of characters is no boundary. -/
theorem isPrefixOf_eq_false {rest piece : Bytes} (h : ∀ b ∈ piece, isPlain b = true) :
    List.isPrefixOf (45 :: rest) piece = false := by
  cases piece with
  | nil => rfl
  | cons b piece =>
      have hb := (isPlain_spec (h b List.mem_cons_self)).2.1
      rw [List.isPrefixOf, beq_false_of_ne hb.symm, Bool.false_and]

/-- Lines of characters are collected in an open block. -/
theorem collect_append {p : Partial} (hopen : p.isOpen = true) {pieces : List Bytes}
    (h : ∀ piece ∈ pieces, ∀ b ∈ piece, isPlain b = true) (rest : List Bytes) :
    collect p (pieces ++ rest) =
      collect { p with body := pieces.reverse ++ p.body, isOpen := true } rest := by
  induction pieces generalizing p with
  | nil =>
      rw [← hopen]
      rfl
  | cons piece pieces ih =>
      rw [List.forall_mem_cons] at h
      have hbegin : beginMark.isPrefixOf piece = false := by
        rw [beginMark_eq]
        exact isPrefixOf_eq_false h.1
      have hend : endMark.isPrefixOf piece = false := by
        rw [endMark_eq]
        exact isPrefixOf_eq_false h.1
      rw [List.cons_append, collect, hbegin, hend, hopen]
      show collect { p with body := piece :: p.body, isOpen := true } _ = _
      rw [ih rfl h.2, List.reverse_cons, List.append_assoc, List.singleton_append]

/-- The lines of a block are put together to its text, and those behind it are collected as if they
were the first. -/
theorem collect_block {pieces : List Bytes}
    (h : ∀ piece ∈ pieces, ∀ b ∈ piece, isPlain b = true) (rest : List Bytes) :
    collect {} (opening label :: (pieces ++ closing label :: rest)) =
      (collect {} rest).map (written label pieces.flatten :: ·) := by
  have hbegin : beginMark.isPrefixOf (opening label) = true := by
    rw [List.isPrefixOf_iff_prefix, opening, List.append_assoc]
    exact List.prefix_append _ _
  have hother : beginMark.isPrefixOf (closing label) = false := by
    rw [closing, beginMark_eq, endMark_eq]
    rfl
  have hend : endMark.isPrefixOf (closing label) = true := by
    rw [List.isPrefixOf_iff_prefix, closing, List.append_assoc]
    exact List.prefix_append _ _
  rw [collect, if_pos hbegin, collect_append rfl h, collect, hother, hend]
  show (collect {} rest).map (Partial.close _ _ :: ·) = _
  rw [Partial.close, List.append_nil, List.reverse_reverse]
  rfl

/-! ## Reading the block -/

theorem dropLineEnd?_append {b : UInt8} (hb : b ≠ 13) (init : Bytes) :
    dropLineEnd? (init ++ [b] ++ [10]) = some (init ++ [b]) := by
  unfold dropLineEnd?
  simp only [List.reverse_append, List.reverse_singleton, List.singleton_append]
  split
  · rename_i heq
    simp only [List.cons.injEq] at heq
    exact absurd heq.2.1 hb
  · rename_i heq
    simp only [List.cons.injEq, true_and] at heq
    rw [← heq, List.reverse_cons, List.reverse_reverse]
  · rename_i heq
    simp at heq
  · rename_i h _
    exact absurd rfl (h _)

theorem dropEnding?_append (text ending : Bytes) : dropEnding? ending (text ++ ending) = some text := by
  have hsuffix : ending.isSuffixOf (text ++ ending) = true :=
    List.isSuffixOf_iff_suffix.mpr (List.suffix_append text ending)
  rw [dropEnding?, if_pos hsuffix, List.length_append, Nat.add_sub_cancel, List.take_left]

/-- A last line that ends with a character stays as it is. -/
theorem unwrap?_last {init : Bytes} {b : UInt8} (hb : isPlain b = true)
    (hshort : (init ++ [b]).length ≤ lineWidth) : unwrap? (init ++ [b]) = some (init ++ [b]) := by
  have hstays : (b == 10 || b == 13) = false := by
    have hblank := (isPlain_spec hb).2.2
    simp only [isBlank, Bool.or_eq_false_iff] at hblank
    rw [hblank.1.1.1.2, hblank.1.2, Bool.or_self]
  rw [unwrap?, if_pos hshort, List.reverse_append, List.reverse_singleton, List.singleton_append,
    List.dropWhile_cons_of_neg (by rw [hstays]; exact nofun), List.reverse_cons,
    List.reverse_reverse]

/-- A full line in front is taken as it is. -/
theorem unwrap?_line {front : Bytes} (hfront : front.length = lineWidth) (rest : Bytes) :
    unwrap? (front ++ 10 :: rest) = (unwrap? rest).map (front ++ ·) := by
  have hlong : ¬(front ++ 10 :: rest).length ≤ lineWidth := by
    rw [List.length_append, hfront, List.length_cons]
    omega
  have hskip : skipLineEnd? ((front ++ 10 :: rest).drop lineWidth) = some rest := by
    rw [← hfront, List.drop_left]
    rfl
  rw [unwrap?, if_neg hlong]
  split
  · rename_i hnone
    rw [hskip] at hnone
    cases hnone
  · rename_i rest' hsome
    obtain rfl := Option.some.inj (hskip.symm.trans hsome)
    rw [← hfront, List.take_left]

/-- The lines of characters, without the last line end, are unwrapped.  They end with one of the
characters, so no more than that line end is taken away from them before. -/
theorem exists_unwrap (hne : chars ≠ []) (h : ∀ b ∈ chars, isPlain b = true) :
    ∃ init b, wrap chars = init ++ [b] ++ [10] ∧ isPlain b = true ∧
      unwrap? (init ++ [b]) = some chars := by
  have hpos : 0 < lineWidth := by decide
  induction chars using Bytes.chunks_induction hpos with
  | nil => exact absurd rfl hne
  | step chars _ ih =>
      have hwrap : wrap chars = chars.take lineWidth ++ [10] ++ wrap (chars.drop lineWidth) := by
        rw [wrap, Bytes.chunks_eq_cons hpos hne, List.flatMap_cons]
        rfl
      by_cases hlast : chars.drop lineWidth = []
      · have hshort : chars.length ≤ lineWidth := List.drop_eq_nil_iff.mp hlast
        rw [hlast, List.take_of_length_le hshort] at hwrap
        rcases List.eq_nil_or_concat chars with hempty | ⟨init, b, rfl⟩
        · exact absurd hempty hne
        · rw [List.concat_eq_append] at h hwrap hshort ⊢
          have hb := h b (List.mem_append_right init List.mem_cons_self)
          exact ⟨init, b, hwrap.trans (List.append_nil _), hb, unwrap?_last hb hshort⟩
      · obtain ⟨init, b, hrest, hb, hunwrap⟩ := ih hlast fun c hc => h c (List.mem_of_mem_drop hc)
        have hfull : (chars.take lineWidth).length = lineWidth := by
          rw [List.length_take, Nat.min_eq_left]
          exact Nat.le_of_not_le fun hle => hlast (List.drop_eq_nil_iff.mpr hle)
        refine ⟨chars.take lineWidth ++ 10 :: init, b, ?_, hb, ?_⟩
        · rw [hwrap, hrest]
          simp only [List.append_assoc, List.cons_append, List.nil_append]
        · rw [List.append_assoc, List.cons_append, unwrap?_line hfull, hunwrap, Option.map_some,
            List.take_append_drop]

/-- The label is what stands before the first hyphen. -/
theorem takeWhile_label (hlabel : Fits label) (rest : Bytes) :
    (label ++ (delimiter ++ rest)).takeWhile (· != 45) = label := by
  rw [List.takeWhile_append_of_pos, delimiter_eq]
  · exact List.append_nil label
  · intro b hb
    exact bne_iff_ne.mpr fun h45 => hlabel.noHyphen (h45 ▸ hb)

theorem decode?_written {content : Bytes} (hlabel : Fits label) (hne : chars ≠ [])
    (h : ∀ b ∈ chars, isPlain b = true) (hcontent : Base64.decode? chars = some content) :
    decode? (written label chars) = some ⟨Bytes.ascii label, content⟩ := by
  obtain ⟨init, b, hwrap, hb, hunwrap⟩ := exists_unwrap hne h
  have hb13 : b ≠ 13 := by
    rintro rfl
    cases (isPlain_spec hb).2.2
  -- From the front: the mark, the label and the delimiter, with the line end behind it.
  have htext : written label chars =
      beginMark ++ (label ++ (delimiter ++ 10 :: (wrap chars ++ closing label ++ [10]))) := by
    simp only [written, opening, List.append_assoc, List.cons_append, List.nil_append]
  have hbegin : beginMark.isPrefixOf (written label chars) = true := by
    rw [htext, List.isPrefixOf_iff_prefix]
    exact List.prefix_append _ _
  have hdelimiter (rest : Bytes) :
      (isLabel true label && delimiter.isPrefixOf (delimiter ++ rest)) = true := by
    rw [hlabel.words, Bool.true_and, List.isPrefixOf_iff_prefix]
    exact List.prefix_append _ _
  have hskip (rest : Bytes) : skipLineEnd? (10 :: rest) = some rest := rfl
  -- From the back: the closing line, and the line ends before and behind it.
  have hbehind : dropLineEnd? (wrap chars ++ closing label ++ [10]) =
      some (wrap chars ++ closing label) := by
    have hlast : wrap chars ++ closing label =
        wrap chars ++ endMark ++ label ++ [45, 45, 45, 45] ++ [45] := by
      simp only [closing, delimiter_eq, List.append_assoc, List.cons_append, List.nil_append]
    rw [hlast]
    exact dropLineEnd?_append (by decide) _
  have hclosing : dropEnding? (endMark ++ label ++ delimiter) (wrap chars ++ closing label) =
      some (wrap chars) := dropEnding?_append _ _
  have hbefore : dropLineEnd? (wrap chars) = some (init ++ [b]) := by
    rw [hwrap]
    exact dropLineEnd?_append hb13 init
  unfold decode?
  rw [hbegin, htext]
  simp only [List.drop_left, takeWhile_label hlabel, hdelimiter, hskip, hbehind, hclosing, hbefore,
    hunwrap, hcontent, Bool.not_true, Bool.false_eq_true, if_false, Option.bind_eq_bind,
    Option.bind_some, Option.getD_some]
  rfl

end Firmware.Pem
