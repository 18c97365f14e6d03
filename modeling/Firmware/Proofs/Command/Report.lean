import Firmware.Toml.Report
import Mathlib.Data.List.Basic

/-!
# What stands in a report

A report can be read in two ways: by the values that it has under a key (`valuesOf`), and by the
text that is printed.  `occurs_entry` and `occurs_renderReport` lead from the one to the other: an
entry of any section stands in the text as a line with its key and its value.

A section without entries under no heading is not printed, so the second one is about sections that
have entries.
-/

namespace Firmware.Command

open Toml (Plain Section)

/-! ## Parts of a text -/

/-- A text is part of another one. -/
def Occurs (part text : String) : Prop := ∃ before behind, before ++ part ++ behind = text

theorem Occurs.trans {a b c : String} (hab : Occurs a b) (hbc : Occurs b c) : Occurs a c := by
  obtain ⟨before, behind, rfl⟩ := hab
  obtain ⟨before', behind', rfl⟩ := hbc
  exact ⟨before' ++ before, behind ++ behind', by simp only [String.append_assoc]⟩

theorem occurs_join {s : String} {l : List String} (h : s ∈ l) : Occurs s (String.join l) := by
  obtain ⟨front, back, rfl⟩ := List.append_of_mem h
  exact ⟨String.join front, String.join back, by
    rw [String.join_append, String.join_cons, String.append_assoc]⟩

theorem occurs_intercalate {separator s : String} {l : List String} (h : s ∈ l) :
    Occurs s (separator.intercalate l) := by
  obtain ⟨front, back, rfl⟩ := List.append_of_mem h
  have hback : Occurs s (separator.intercalate (s :: back)) := by
    cases back with
    | nil => exact ⟨"", "", by
        rw [String.intercalate_singleton, String.empty_append, String.append_empty]⟩
    | cons s' back =>
        refine ⟨"", separator ++ separator.intercalate (s' :: back), ?_⟩
        rw [String.intercalate_cons_cons, String.empty_append, String.append_assoc]
  cases front with
  | nil => exact hback
  | cons s' front =>
      refine hback.trans ⟨separator.intercalate (s' :: front) ++ separator, "", ?_⟩
      rw [String.intercalate_append_of_ne_nil (List.cons_ne_nil _ _) (List.cons_ne_nil _ _),
        String.append_empty]

/-! ## Reports -/

/-- Sections with entries are part of the text of a report. -/
theorem occurs_renderReport {report : List Section} {s : Section} (h : s ∈ report)
    (hentries : s.entries ≠ []) : Occurs s.render (Toml.renderReport report) := by
  apply occurs_intercalate
  refine List.mem_map_of_mem (List.mem_filter.mpr ⟨h, ?_⟩)
  split
  · rw [List.isEmpty_eq_false_iff.mpr hentries]
    rfl
  · rfl

/-- An entry is a line of its section. -/
theorem occurs_entry {s : Section} {key : String} {v : Plain} (h : (key, v) ∈ s.entries) :
    Occurs (key ++ " = " ++ v.render ++ "\n") s.render := by
  have hline : Occurs (key ++ " = " ++ v.render ++ "\n")
      (String.join (s.entries.map fun e => e.1 ++ " = " ++ e.2.render ++ "\n")) :=
    occurs_join (List.mem_map.mpr ⟨(key, v), h, rfl⟩)
  exact hline.trans ⟨s.heading.render, "", String.append_empty⟩

/-- The values under a key. -/
def valuesIn (key : String) (entries : List (String × Plain)) : List Plain :=
  entries.filterMap fun e => if e.1 = key then some e.2 else none

/-- The values under a key, in all sections. -/
def valuesOf (key : String) (report : List Section) : List Plain :=
  report.flatMap fun s => valuesIn key s.entries

theorem valuesIn_append (key : String) (front back : List (String × Plain)) :
    valuesIn key (front ++ back) = valuesIn key front ++ valuesIn key back := List.filterMap_append

theorem valuesOf_append (key : String) (front back : List Section) :
    valuesOf key (front ++ back) = valuesOf key front ++ valuesOf key back := List.flatMap_append

/-- Rows have no values under a key that is in none of them. -/
theorem valuesOf_rows {key name : String} {tables : List (List (String × Plain))}
    (h : ∀ entries ∈ tables, valuesIn key entries = []) :
    valuesOf key (Toml.rows name tables).2 = [] := by
  rw [valuesOf, List.flatMap_eq_nil_iff]
  intro s hs
  cases tables with
  | nil => cases hs
  | cons table tables =>
      obtain ⟨entries, hentries, rfl⟩ := List.mem_map.mp hs
      exact h entries hentries

/-- Nor has the name that stands for rows that are missing. -/
theorem valuesIn_rows {key name : String} (h : name ≠ key)
    (tables : List (List (String × Plain))) : valuesIn key (Toml.rows name tables).1 = [] := by
  cases tables with
  | nil => exact List.filterMap_cons_none (if_neg h)
  | cons entries tables => rfl

end Firmware.Command
