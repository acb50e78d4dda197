import Mathlib.Data.List.Forall2
import ScriptLens.Proofs.Layout.Laid

/-!
# What formatting adds to a text

Breaking lines, spacing them and indenting them moves blanks only, and a semicolon is added only where a line ends.
So a formatted text is a text with the visible characters of its source, some lines of which have a semicolon more
at their end.

Main statement: `format_terminated`.
-/

namespace ScriptLens.Layout

open Text

/-! ### Visible characters -/

/-- Line feeds between lines are not visible. -/
theorem visible_unlines (ls : List (List Char)) : visible (unlines ls) = visible ls.flatten := by
  have hfeed : ∀ cs, visible ('\n' :: cs) = visible cs := fun cs => List.filter_cons_of_neg (by decide)
  induction ls with
  | nil => rfl
  | cons line rest ih =>
      cases rest with
      | nil => simp
      | cons below more =>
          rw [unlines_cons line (List.cons_ne_nil below more), visible_append, hfeed, ih, ← visible_append]
          rfl

theorem visible_breakAtBraces (text : List Char) : visible (breakAtBraces text) = visible text := by
  rw [← Spaced.text_ofChars text, breakAtBraces_text, Spaced.visible_text, Spaced.visible_text,
    Spaced.letters_respace]

/-- The rows of a text have its visible characters. -/
theorem visible_rows (text : List Char) : visible (rows text).flatten = visible text := by
  rw [← Spaced.text_ofChars text, Spaced.visible_text]
  cases Spaced.ofChars text with
  | last g => rw [rows_last]; rfl
  | next g c v rest =>
      rw [rows_next, Spaced.visible_rowsFrom, visible_cons v]
      rfl

/-! ### Lines with a semicolon more -/

/-- A line as it was, or with a semicolon behind it. -/
inductive Terminated (line : List Char) : List Char → Prop
  | bare : Terminated line line
  | semicolon : Terminated line (line ++ [';'])

namespace Terminated

variable {line out : List Char}

theorem append_left (h : Terminated line out) (front : List Char) :
    Terminated (front ++ line) (front ++ out) := by
  cases h with
  | bare => exact .bare
  | semicolon =>
      rw [← List.append_assoc]
      exact .semicolon

theorem subset (h : Terminated line out) : line ⊆ out := by
  cases h with
  | bare => exact List.Subset.refl line
  | semicolon => exact List.subset_append_left line [';']

end Terminated

/-- A finished line has its visible characters and perhaps a semicolon behind them. -/
theorem exists_terminated_finishLine (line : List Char) :
    ∃ bare, Terminated bare (finishLine line) ∧ visible bare = visible line := by
  rcases visible_finishLine line with ⟨-, hsame⟩ | ⟨-, hadded⟩
  · exact ⟨_, .bare, hsame⟩
  · have hlast : (finishLine line).getLast? = some ';' := by
      rw [getLast?_finishLine, hadded, List.getLast?_concat]
    obtain ⟨bare, hbare⟩ := List.getLast?_eq_some_iff.mp hlast
    have hsemicolon : visible [';'] = [';'] := by decide
    rw [hbare, visible_append, hsemicolon] at hadded
    rw [hbare]
    exact ⟨bare, .semicolon, List.append_cancel_right hadded⟩

theorem exists_terminated_finishRow (row : List Char) :
    ∃ bare, Terminated bare (finishRow row) ∧ visible bare = visible row := by
  by_cases h : row = []
  · subst h
    exact ⟨[], .bare, rfl⟩
  · rw [finishRow_text h]
    exact exists_terminated_finishLine row

/-! ### Indented lines -/

/-- Indenting puts blanks before a row, and none before a blank row. -/
theorem exists_indent_cons (tab level : Nat) (row : List Char) (rest : List (List Char)) :
    ∃ k below, indent tab level (row :: rest) = (List.replicate k ' ' ++ row) :: indent tab below rest := by
  by_cases h : row = []
  · subst h
    exact ⟨0, level, rfl⟩
  · obtain ⟨k, below, hindent, -⟩ := indent_cons tab level h rest
    exact ⟨k, below, hindent⟩

theorem visible_indentation (k : Nat) : visible (List.replicate k ' ') = [] := by
  simp [visible, show isBlank ' ' = true by decide]

/-- Finished and indented rows are lines with the visible characters of the rows, and some of them have a semicolon
more. -/
theorem exists_terminated_indent (tab level : Nat) (ls : List (List Char)) :
    ∃ bares, List.Forall₂ Terminated bares (indent tab level (ls.map finishRow)) ∧
      visible bares.flatten = visible ls.flatten := by
  induction ls generalizing level with
  | nil => exact ⟨[], .nil, rfl⟩
  | cons row rest ih =>
      obtain ⟨k, below, hindent⟩ := exists_indent_cons tab level (finishRow row) (rest.map finishRow)
      obtain ⟨bare, hbare, hvisible⟩ := exists_terminated_finishRow row
      obtain ⟨bares, hbares, hrest⟩ := ih below
      refine ⟨(List.replicate k ' ' ++ bare) :: bares, ?_, ?_⟩
      · rw [List.map_cons, hindent]
        exact .cons (hbare.append_left _) hbares
      · simp only [List.flatten_cons, visible_append, visible_indentation, hvisible, hrest, List.nil_append]

/-! ### Formatted texts -/

theorem Terminated.forall_not_mem {bares ls : List (List Char)} {c : Char}
    (h : List.Forall₂ Terminated bares ls) (hls : ∀ line ∈ ls, c ∉ line) : ∀ bare ∈ bares, c ∉ bare := by
  induction h with
  | nil => exact hls
  | cons hfirst hrest ih =>
      rw [List.forall_mem_cons] at hls ⊢
      exact ⟨fun hmem => hls.1 (hfirst.subset hmem), ih hls.2⟩

/-- Lines that end with a semicolon more are the lines of one text beside those of another. -/
theorem forall₂_lines_unlines {bares ls : List (List Char)} (h : List.Forall₂ Terminated bares ls)
    (hfeed : ∀ line ∈ ls, '\n' ∉ line) :
    List.Forall₂ Terminated (lines (unlines bares)) (lines (unlines ls)) := by
  cases h with
  | nil => exact .cons .bare .nil
  | @cons bare line bares ls hfirst hrest =>
      have hall := List.Forall₂.cons hfirst hrest
      rw [lines_unlines (List.cons_ne_nil _ _) (Terminated.forall_not_mem hall hfeed),
        lines_unlines (List.cons_ne_nil _ _) hfeed]
      exact hall

/-- Formatting only moves blanks and ends lines with semicolons: without the one semicolon that may have been added
at the end of a line, the lines of a formatted text have the visible characters of its source. -/
theorem format_terminated (source : String) (requested : Int) :
    ∃ bare : String, visible bare.toList = visible source.toList ∧
      List.Forall₂ Terminated (lines bare.toList) (lines (format source requested).toList) := by
  have htidy := (tidy_rows (breakAtBraces source.toList)).finish
  obtain ⟨bares, hbares, hvisible⟩ :=
    exists_terminated_indent (tabSize requested) 0 (rows (breakAtBraces source.toList))
  refine ⟨String.ofList (unlines bares), ?_, ?_⟩
  · rw [String.toList_ofList, visible_unlines, hvisible, visible_rows, visible_breakAtBraces]
  · rw [String.toList_ofList, format, String.toList_ofList, formatChars_eq_indent]
    exact forall₂_lines_unlines hbares fun line hline => htidy.feed_not_mem_indent hline

end ScriptLens.Layout
