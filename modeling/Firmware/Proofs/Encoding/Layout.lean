import Firmware.Proofs.Encoding.Pem
import Firmware.Proofs.Text.Trim

/-!
# The layout of armoured text

`LaidOut` is the relation that collecting the blocks of a text undoes: it says which lines a list of
blocks may be written in.  The characters of a block may be cut anywhere, every line may have blanks
at both ends, and between the blocks there may be any lines that are no boundary.  A blank line is one
with an empty piece of the characters within a block, and one of the other lines outside.

`split_of_isLayout` : from each of these texts the same blocks are collected, in the form in which
they are written.  The induction is over the relation, and what carries it is that collecting starts
afresh behind every block (`collect_block`).

`decodeAll_encode` : so the text that is written for a block is read as this block and no other.
-/

namespace Firmware.Pem

open Base64 (isPlain)

variable {label chars : Bytes}

/-! ## Lines -/

theorem linesFrom_append {line : Bytes} (h : 10 ∉ line) (current r : Bytes) :
    linesFrom current (line ++ [10] ++ r) = (current.reverse ++ line) :: linesFrom [] r := by
  induction line generalizing current with
  | nil => rw [List.nil_append, List.singleton_append, linesFrom, if_pos rfl, List.append_nil]
  | cons b line ih =>
      rw [List.mem_cons, not_or] at h
      rw [List.cons_append, List.cons_append, linesFrom, if_neg (Ne.symm h.1), ih h.2,
        List.reverse_cons, List.append_assoc, List.singleton_append]

/-- A text that is made of lines with their ends. -/
theorem lines_flatMap {ls : List Bytes} (h : ∀ line ∈ ls, 10 ∉ line) :
    lines (ls.flatMap (· ++ [10])) = ls ++ [[]] := by
  induction ls with
  | nil => rfl
  | cons line ls ih =>
      rw [List.forall_mem_cons] at h
      rw [List.flatMap_cons, lines, linesFrom_append h.1]
      exact congrArg (line :: ·) (ih h.2)

theorem linesFrom_concat (current text : Bytes) :
    linesFrom current (text ++ [10]) = linesFrom current text ++ [[]] := by
  induction text generalizing current with
  | nil => rfl
  | cons b text ih =>
      rw [List.cons_append, linesFrom, linesFrom]
      split
      · exact congrArg (current.reverse :: ·) (ih [])
      · exact ih (b :: current)

/-- The lines of a text that may have something in them, without the blanks around it. -/
def trimmed (ls : List Bytes) : List Bytes := (ls.map trimLine).filter (!·.isEmpty)

theorem trimmed_append (ls ls' : List Bytes) : trimmed (ls ++ ls') = trimmed ls ++ trimmed ls' := by
  rw [trimmed, List.map_append, List.filter_append]
  rfl

/-- The texts of the blocks in a text. -/
def split (text : Bytes) : Except Error (List Bytes) := collect {} (trimmed (lines text))

theorem decodeAll_eq (text : Bytes) :
    decodeAll text = split text >>= fun texts =>
      texts.mapM fun t => (decode? t).elim (.error .malformed) .ok := rfl

/-- The end of the last line may be missing. -/
theorem lines_eq_or {ls : List Bytes} {text : Bytes} (hlines : ∀ line ∈ ls, 10 ∉ line)
    (htext : text = ls.flatMap (· ++ [10]) ∨ text ++ [10] = ls.flatMap (· ++ [10])) :
    lines text = ls ++ [[]] ∨ lines text = ls := by
  have hall := lines_flatMap hlines
  rcases htext with rfl | htext
  · exact .inl hall
  · rw [← htext, lines, linesFrom_concat] at hall
    exact .inr (List.append_cancel_right hall)

theorem infix_of_mem_linesFrom {current line text : Bytes} (h : line ∈ linesFrom current text) :
    line <:+: current.reverse ++ text := by
  induction text generalizing current with
  | nil =>
      obtain rfl := List.mem_singleton.mp h
      exact (List.prefix_append _ _).isInfix
  | cons b text ih =>
      rw [linesFrom] at h
      split at h
      · rcases List.mem_cons.mp h with rfl | h
        · exact (List.prefix_append _ _).isInfix
        · have hrest := (List.suffix_cons b text).isInfix
          exact ((ih h).trans hrest).trans (List.suffix_append _ _).isInfix
      · have hline := ih h
        rwa [List.reverse_cons, List.append_assoc] at hline

/-! ## Padding -/

/-- A blank that may stand at the end of a line. -/
def isMargin (b : UInt8) : Bool := isBlank b && b != 10

/-- A line with a content, and blanks at both ends. -/
def Padded (content line : Bytes) : Prop :=
  ∃ front back : Bytes, front.all isMargin = true ∧ back.all isMargin = true ∧
    line = front ++ content ++ back

/-- A content of one line, with no blank at either end. -/
structure Tight (content : Bytes) : Prop where
  oneLine : 10 ∉ content
  head : ∀ b ∈ content.head?, isBlank b = false
  last : ∀ b ∈ content.getLast?, isBlank b = false

theorem isMargin_spec {bs : Bytes} (h : bs.all isMargin = true) :
    ∀ b ∈ bs, isBlank b = true ∧ b ≠ 10 := by
  intro b hb
  have hmargin := List.all_eq_true.mp h b hb
  rwa [isMargin, Bool.and_eq_true, bne_iff_ne] at hmargin

theorem padded_self (content : Bytes) : Padded content content :=
  ⟨[], [], rfl, rfl, (List.append_nil content).symm⟩

theorem trimLine_of_padded {content line : Bytes} (htight : Tight content)
    (h : Padded content line) : trimLine line = content := by
  obtain ⟨front, back, hfront, hback, rfl⟩ := h
  exact trimBoth_append (fun b hb => (isMargin_spec hfront b hb).1)
    (fun b hb => (isMargin_spec hback b hb).1) htight.head htight.last

theorem oneLine_of_padded {content line : Bytes} (htight : Tight content)
    (h : Padded content line) : 10 ∉ line := by
  obtain ⟨front, back, hfront, hback, rfl⟩ := h
  rw [List.mem_append, List.mem_append, not_or, not_or]
  exact ⟨⟨fun hmem => (isMargin_spec hfront 10 hmem).2 rfl, htight.oneLine⟩,
    fun hmem => (isMargin_spec hback 10 hmem).2 rfl⟩

/-- Both boundaries start and end with a hyphen. -/
theorem tight_boundary {mark rest : Bytes} (hmark : mark = 45 :: rest) (hrest : 10 ∉ rest)
    (hlabel : 10 ∉ label) : Tight (mark ++ label ++ delimiter) where
  oneLine := by
    rw [hmark, delimiter_eq]
    simp only [List.mem_append, List.mem_cons, not_or]
    exact ⟨⟨⟨by decide, hrest⟩, hlabel⟩, by decide⟩
  head := by
    rw [hmark]
    rintro _ ⟨⟩
    rfl
  last := by
    rw [delimiter_eq, List.getLast?_append_of_ne_nil _ (List.cons_ne_nil _ _)]
    rintro _ ⟨⟩
    rfl

theorem tight_opening (h : 10 ∉ label) : Tight (opening label) :=
  tight_boundary beginMark_eq (by decide) h

theorem tight_closing (h : 10 ∉ label) : Tight (closing label) :=
  tight_boundary endMark_eq (by decide) h

theorem opening_ne_nil (label : Bytes) : opening label ≠ [] := by
  rw [opening, beginMark_eq]
  exact List.cons_ne_nil _ _

theorem closing_ne_nil (label : Bytes) : closing label ≠ [] := by
  rw [closing, endMark_eq]
  exact List.cons_ne_nil _ _

theorem tight_of_isPlain {piece : Bytes} (h : ∀ b ∈ piece, isPlain b = true) : Tight piece where
  oneLine hmem := absurd (h 10 hmem) (by decide)
  head b hb := (isPlain_spec (h b (List.mem_of_mem_head? hb))).2.2
  last b hb := (isPlain_spec (h b (List.mem_of_mem_getLast? hb))).2.2

/-! ## Layouts -/

/-- A block before it is read: a label on one line, and characters.  They are those of base64, or any
other printable ones but blanks and hyphens; whether they can be decoded does not matter. -/
structure Framed where
  label : Bytes
  chars : Bytes
  oneLine : 10 ∉ label
  ne_nil : chars ≠ []
  plain : ∀ b ∈ chars, isPlain b = true

/-- The text that is collected for a block, with the characters in lines of the full width. -/
def Framed.text (b : Framed) : Bytes := written b.label b.chars

/-- The lines that characters are cut into; where a line is blank, nothing is cut off. -/
def Cut (chars : Bytes) (ls : List Bytes) : Prop :=
  ∃ pieces : List Bytes, pieces.flatten = chars ∧ List.Forall₂ Padded pieces ls

/-- A line that can stand between blocks: no boundary, perhaps a blank line. -/
structure IsOutside (line : Bytes) : Prop where
  oneLine : 10 ∉ line
  noBegin : ¬beginMark <+: trimLine line
  noEnd : ¬endMark <+: trimLine line

/-- A line with anything else than a hyphen in front, or with nothing, is no boundary. -/
theorem isOutside_of_head? {line : Bytes} (hline : 10 ∉ line)
    (h : (trimLine line).head? ≠ some 45) : IsOutside line where
  oneLine := hline
  noBegin := by
    rw [beginMark_eq]
    rintro ⟨rest, hrest⟩
    rw [← hrest] at h
    exact h rfl
  noEnd := by
    rw [endMark_eq]
    rintro ⟨rest, hrest⟩
    rw [← hrest] at h
    exact h rfl

/-- The lines that blocks are written in. -/
inductive LaidOut : List Framed → List Bytes → Prop
  | done : LaidOut [] []
  | outside {blocks : List Framed} {line : Bytes} {ls : List Bytes} :
      IsOutside line → LaidOut blocks ls → LaidOut blocks (line :: ls)
  | block {b : Framed} {blocks : List Framed} {first last : Bytes} {middle ls : List Bytes} :
      Padded (opening b.label) first → Cut b.chars middle → Padded (closing b.label) last →
        LaidOut blocks ls → LaidOut (b :: blocks) (first :: (middle ++ last :: ls))

/-- A text that blocks are written in.  The end of its last line may be missing. -/
def IsLayout (blocks : List Framed) (text : Bytes) : Prop :=
  ∃ ls, LaidOut blocks ls ∧
    (text = ls.flatMap (· ++ [10]) ∨ text ++ [10] = ls.flatMap (· ++ [10]))

variable {blocks : List Framed} {ls : List Bytes} {text : Bytes}

/-- What is laid out in parts is laid out. -/
theorem LaidOut.append {blocks' : List Framed} {ls' : List Bytes} (h : LaidOut blocks ls)
    (h' : LaidOut blocks' ls') : LaidOut (blocks ++ blocks') (ls ++ ls') := by
  induction h with
  | done => exact h'
  | outside hline _ ih => exact .outside hline ih
  | block hfirst hmiddle hlast _ ih =>
      rw [List.cons_append, List.cons_append, List.append_assoc, List.cons_append]
      exact .block hfirst hmiddle hlast ih

theorem plain_of_cut {pieces : List Bytes} (h : ∀ b ∈ pieces.flatten, isPlain b = true) :
    ∀ piece ∈ pieces, ∀ b ∈ piece, isPlain b = true :=
  fun piece hpiece b hb => h b (List.mem_flatten.mpr ⟨piece, hpiece, hb⟩)

theorem oneLine_of_cut {middle : List Bytes} (hplain : ∀ b ∈ chars, isPlain b = true)
    (h : Cut chars middle) : ∀ line ∈ middle, 10 ∉ line := by
  obtain ⟨pieces, rfl, hpieces⟩ := h
  have hall := plain_of_cut hplain
  induction hpieces with
  | nil => exact nofun
  | @cons piece line pieces middle hpadded _ ih =>
      rw [List.forall_mem_cons] at hall ⊢
      rw [List.flatten_cons, List.forall_mem_append] at hplain
      exact ⟨oneLine_of_padded (tight_of_isPlain hall.1) hpadded, ih hplain.2 hall.2⟩

theorem oneLine_of_laidOut (h : LaidOut blocks ls) : ∀ line ∈ ls, 10 ∉ line := by
  induction h with
  | done => exact nofun
  | outside hline _ ih => exact List.forall_mem_cons.mpr ⟨hline.oneLine, ih⟩
  | @block b blocks first last middle ls hfirst hmiddle hlast _ ih =>
      rw [List.forall_mem_cons, List.forall_mem_append, List.forall_mem_cons]
      exact ⟨oneLine_of_padded (tight_opening b.oneLine) hfirst, oneLine_of_cut b.plain hmiddle,
        oneLine_of_padded (tight_closing b.oneLine) hlast, ih⟩

/-! ## Collecting -/

theorem trimmed_cons {line : Bytes} (h : trimLine line ≠ []) (ls : List Bytes) :
    trimmed (line :: ls) = trimLine line :: trimmed ls := by
  rw [trimmed, List.map_cons, List.filter_cons_of_pos]
  · rfl
  · rw [Bool.not_eq_true', List.isEmpty_eq_false_iff]
    exact h

/-- The pieces that are left of the characters in a block. -/
theorem exists_trimmed_of_cut {middle : List Bytes} (hplain : ∀ b ∈ chars, isPlain b = true)
    (h : Cut chars middle) : (trimmed middle).flatten = chars ∧
      ∀ piece ∈ trimmed middle, ∀ b ∈ piece, isPlain b = true := by
  obtain ⟨pieces, rfl, hpieces⟩ := h
  have hall := plain_of_cut hplain
  have htrim : middle.map trimLine = pieces := by
    clear hplain
    induction hpieces with
    | nil => rfl
    | cons hpadded _ ih =>
        rw [List.forall_mem_cons] at hall
        rw [List.map_cons, trimLine_of_padded (tight_of_isPlain hall.1) hpadded, ih hall.2]
  rw [trimmed, htrim]
  refine ⟨List.flatten_filter_not_isEmpty, fun piece hpiece => hall piece ?_⟩
  exact (List.mem_filter.mp hpiece).1

/-- A line between blocks is not collected. -/
theorem collect_outside {line : Bytes} (h : IsOutside line) (ls : List Bytes) :
    collect {} (trimmed (line :: ls)) = collect {} (trimmed ls) := by
  by_cases hempty : trimLine line = []
  · rw [trimmed, List.map_cons, hempty]
    rfl
  · have hbegin := h.noBegin
    have hend := h.noEnd
    rw [← List.isPrefixOf_iff_prefix] at hbegin hend
    rw [trimmed_cons hempty, collect, if_neg hbegin, if_neg hend]
    rfl

theorem collect_of_laidOut (h : LaidOut blocks ls) :
    collect {} (trimmed ls) = .ok (blocks.map Framed.text) := by
  induction h with
  | done => rfl
  | outside hline _ ih => rw [collect_outside hline, ih]
  | @block b blocks first last middle ls hfirst hmiddle hlast _ ih =>
      have hopening := trimLine_of_padded (tight_opening b.oneLine) hfirst
      have hclosing := trimLine_of_padded (tight_closing b.oneLine) hlast
      obtain ⟨hflatten, hpieces⟩ := exists_trimmed_of_cut b.plain hmiddle
      have hfirst' := opening_ne_nil b.label
      have hlast' := closing_ne_nil b.label
      rw [← hopening] at hfirst'
      rw [← hclosing] at hlast'
      rw [trimmed_cons hfirst', trimmed_append, trimmed_cons hlast', hopening, hclosing,
        collect_block hpieces, ih, hflatten]
      rfl

/-- From every text that blocks are written in, these blocks are collected. -/
theorem split_of_isLayout (h : IsLayout blocks text) : split text = .ok (blocks.map Framed.text) := by
  obtain ⟨ls, hlaid, htext⟩ := h
  have hempty : trimmed (ls ++ [[]]) = trimmed ls := by
    rw [trimmed_append]
    exact List.append_nil _
  rcases lines_eq_or (oneLine_of_laidOut hlaid) htext with hlines | hlines
  · rw [split, hlines, hempty, collect_of_laidOut hlaid]
  · rw [split, hlines, collect_of_laidOut hlaid]

/-! ## Decoding -/

/-- A block as it is read. -/
def Framed.decode (b : Framed) : Except Error Block := (decode? b.text).elim (.error .malformed) .ok

/-- What is read from a text does not depend on how the blocks are laid out in it. -/
theorem decodeAll_of_isLayout (h : IsLayout blocks text) :
    decodeAll text = blocks.mapM Framed.decode := by
  rw [decodeAll_eq, split_of_isLayout h]
  exact List.mapM_map

theorem exists_opening_of_laidOut (hne : blocks ≠ []) (h : LaidOut blocks ls) :
    ∃ line ∈ ls, beginMark <:+: line := by
  induction h with
  | done => exact absurd rfl hne
  | outside _ _ ih =>
      obtain ⟨line, hline, hmark⟩ := ih hne
      exact ⟨line, List.mem_cons_of_mem _ hline, hmark⟩
  | @block b _ first _ _ _ hfirst _ _ _ _ =>
      obtain ⟨front, back, -, -, rfl⟩ := hfirst
      refine ⟨_, List.mem_cons_self, ?_⟩
      rw [opening, List.append_assoc beginMark]
      exact ((List.prefix_append _ _).isInfix.trans (List.suffix_append _ _).isInfix).trans
        (List.prefix_append _ _).isInfix

/-- A text with a block in it is taken for armoured text. -/
theorem isArmoured_of_isLayout (hne : blocks ≠ []) (h : IsLayout blocks text) :
    isArmoured text = true := by
  obtain ⟨ls, hlaid, htext⟩ := h
  obtain ⟨line, hline, hmark⟩ := exists_opening_of_laidOut hne hlaid
  have hmem : line ∈ lines text := by
    rcases lines_eq_or (oneLine_of_laidOut hlaid) htext with hlines | hlines
    · rw [hlines]
      exact List.mem_append_left _ hline
    · rwa [hlines]
  rw [isArmoured_iff]
  exact hmark.trans (infix_of_mem_linesFrom hmem)

/-! ## What is written -/

/-- The lines of a written block. -/
def blockLines (label chars : Bytes) : List Bytes :=
  opening label :: (Bytes.chunks lineWidth chars ++ [closing label])

theorem written_eq (label chars : Bytes) :
    written label chars = (blockLines label chars).flatMap (· ++ [10]) := by
  simp only [written, wrap, blockLines, List.flatMap_cons, List.flatMap_append, List.flatMap_nil,
    List.append_nil, List.append_assoc]

/-- Writing chooses one of the layouts. -/
theorem laidOut_blockLines (b : Framed) : LaidOut [b] (blockLines b.label b.chars) := by
  have hcut : Cut b.chars (Bytes.chunks lineWidth b.chars) :=
    ⟨_, Bytes.flatten_chunks (by decide) _, List.forall₂_same.mpr fun piece _ => padded_self piece⟩
  exact .block (padded_self _) hcut (padded_self _) .done

/-- A block with the characters for a content. -/
def Framed.ofContent (label content : Bytes) (hlabel : 10 ∉ label) (hcontent : content ≠ []) :
    Framed where
  label := label
  chars := Base64.encode content
  oneLine := hlabel
  ne_nil := Base64.encode_ne_nil hcontent
  plain := Base64.isPlain_of_mem_encode

theorem decode_of_fits {b : Framed} (hlabel : Fits b.label) {content : Bytes}
    (hcontent : Base64.decode? b.chars = some content) :
    b.decode = .ok ⟨Bytes.ascii b.label, content⟩ := by
  rw [Framed.decode, Framed.text, decode?_written hlabel b.ne_nil b.plain hcontent]
  rfl

theorem oneLine_of_fits (h : Fits label) : 10 ∉ label :=
  fun hmem => (spec_of_isLabel h.words 10 hmem).2 rfl

theorem isLayout_encode {content : Bytes} (hlabel : Fits label) (hcontent : content ≠ []) :
    IsLayout [.ofContent label content (oneLine_of_fits hlabel) hcontent]
      (Bytes.ofText (encode ⟨Bytes.ascii label, content⟩)) := by
  rw [ofText_encode hlabel]
  exact ⟨_, laidOut_blockLines _, .inl (written_eq _ _)⟩

theorem decodeAll_encode {content : Bytes} (hlabel : Fits label) (hcontent : content ≠ []) :
    decodeAll (Bytes.ofText (encode ⟨Bytes.ascii label, content⟩)) =
      .ok [⟨Bytes.ascii label, content⟩] := by
  rw [decodeAll_of_isLayout (isLayout_encode hlabel hcontent)]
  exact mapM_eq_ok_iff.mpr (.cons (decode_of_fits hlabel (Base64.decode?_encode content)) .nil)

theorem isArmoured_encode {content : Bytes} (hlabel : Fits label) (hcontent : content ≠ []) :
    isArmoured (Bytes.ofText (encode ⟨Bytes.ascii label, content⟩)) = true :=
  isArmoured_of_isLayout (List.cons_ne_nil _ _) (isLayout_encode hlabel hcontent)

end Firmware.Pem
