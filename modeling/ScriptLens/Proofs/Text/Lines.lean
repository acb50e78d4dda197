import ScriptLens.Text.Lines

/-!
# Cutting texts into lines

A line feed cuts a text in two, and the lines of the text are those of its parts.  Everything else about
lines follows from that and from what text without a line feed does.  The latter is so for the pieces between any
separators.

Main statements: `pieces_append`, `lines_feed`, `lines_append`, `lines_unlines` and `exists_cut_of_line`.
-/

namespace ScriptLens.Text

/-! ### Pieces -/

/-- Text without a separator goes to the front of the first piece. -/
theorem pieces_append {separator : Char} {piece : List Char} (h : separator ∉ piece) (text : List Char) :
    ∃ first rest, pieces separator text = first :: rest ∧ pieces separator (piece ++ text) = (piece ++ first) :: rest := by
  obtain ⟨first, rest, hpieces⟩ := List.exists_cons_of_ne_nil (pieces_ne_nil separator text)
  refine ⟨first, rest, hpieces, ?_⟩
  induction piece with
  | nil => exact hpieces
  | cons c cs ih =>
      obtain ⟨hc, hcs⟩ : separator ≠ c ∧ separator ∉ cs := by simpa using h
      rw [List.cons_append, pieces, if_neg (Ne.symm hc), ih hcs, List.cons_append]

theorem pieces_of_not_mem {separator : Char} {piece : List Char} (h : separator ∉ piece) :
    pieces separator piece = [piece] := by
  obtain ⟨first, rest, hnil, hpiece⟩ := pieces_append h []
  obtain ⟨rfl, rfl⟩ : [] = first ∧ [] = rest := by simpa [pieces] using hnil
  simpa using hpiece

/-- A separator ends a piece. -/
theorem pieces_append_separator {separator : Char} {piece : List Char} (h : separator ∉ piece) (text : List Char) :
    pieces separator (piece ++ separator :: text) = piece :: pieces separator text := by
  obtain ⟨first, rest, hbelow, hpieces⟩ := pieces_append h (separator :: text)
  obtain ⟨rfl, rfl⟩ : [] = first ∧ pieces separator text = rest := by simpa [pieces] using hbelow
  simpa using hpieces

/-! ### Lines -/

theorem lines_ne_nil (text : List Char) : lines text ≠ [] :=
  pieces_ne_nil '\n' text

/-- The lines of a text with a line feed are those on either side of it. -/
theorem lines_feed (before behind : List Char) :
    lines (before ++ '\n' :: behind) = lines before ++ lines behind := by
  induction before with
  | nil => simp [lines, pieces]
  | cons c cs ih =>
      have ih : pieces '\n' (cs ++ '\n' :: behind) = pieces '\n' cs ++ pieces '\n' behind := ih
      obtain ⟨first, rest, hlines⟩ := List.exists_cons_of_ne_nil (pieces_ne_nil '\n' cs)
      by_cases hc : c = '\n'
      · simp [lines, pieces, hc, ih]
      · simp [lines, pieces, hc, ih, hlines]

/-- There is one line more than there are line feeds. -/
theorem length_lines (text : List Char) : (lines text).length = text.count '\n' + 1 := by
  induction text with
  | nil => rfl
  | cons c cs ih =>
      have ih : (pieces '\n' cs).length = cs.count '\n' + 1 := ih
      obtain ⟨first, rest, hlines⟩ := List.exists_cons_of_ne_nil (pieces_ne_nil '\n' cs)
      by_cases hc : c = '\n'
      · simp [lines, pieces, hc, ih]
      · rw [hlines] at ih
        simpa [lines, pieces, hc, hlines] using ih

/-- Text without a line feed goes to the front of the first line. -/
theorem lines_append {line : List Char} (h : '\n' ∉ line) (text : List Char) :
    ∃ first rest, lines text = first :: rest ∧ lines (line ++ text) = (line ++ first) :: rest :=
  pieces_append h text

theorem lines_of_not_mem {line : List Char} (h : '\n' ∉ line) : lines line = [line] :=
  pieces_of_not_mem h

/-- A line feed ends a line. -/
theorem lines_append_feed {line : List Char} (h : '\n' ∉ line) (text : List Char) :
    lines (line ++ '\n' :: text) = line :: lines text :=
  pieces_append_separator h text

/-- A line feed is between a line and those below it. -/
theorem unlines_cons (line : List Char) {rest : List (List Char)} (h : rest ≠ []) :
    unlines (line :: rest) = line ++ '\n' :: unlines rest := by
  obtain ⟨below, more, rfl⟩ := List.exists_cons_of_ne_nil h
  exact unlines_cons_cons line below more

/-- Lines that were joined can be told apart again. -/
theorem lines_unlines {ls : List (List Char)} (hne : ls ≠ []) (h : ∀ line ∈ ls, '\n' ∉ line) :
    lines (unlines ls) = ls := by
  induction ls with
  | nil => exact absurd rfl hne
  | cons line rest ih =>
      have hline : '\n' ∉ line := h line List.mem_cons_self
      cases rest with
      | nil => simpa using lines_of_not_mem hline
      | cons below more =>
          have hrest := ih (by simp) fun l hl => h l (List.mem_cons_of_mem line hl)
          rw [unlines_cons line (by simp), lines_append_feed hline, hrest]

/-! ### Lines as parts of their text -/

/-- The lines of a text are what is left of it without its line feeds. -/
theorem flatten_lines_sublist (text : List Char) : (lines text).flatten.Sublist text := by
  induction text with
  | nil => exact List.nil_sublist []
  | cons c cs ih =>
      replace ih : (pieces '\n' cs).flatten.Sublist cs := ih
      rw [lines, pieces]
      split
      · exact ih.cons c
      · cases hpieces : pieces '\n' cs with
        | nil => exact (List.nil_sublist cs).cons_cons c
        | cons line rest =>
            rw [hpieces] at ih
            exact ih.cons_cons c

/-- So are the lines of a display, without its line breaks. -/
theorem flatten_visualLines_sublist (text : List Char) : (visualLines text).flatten.Sublist text := by
  fun_induction visualLines text with
  | case1 => exact List.nil_sublist []
  | case2 cs ih => exact (ih.cons '\n').cons '\r'
  | case3 c cs hfeed hbreak ih => exact ih.cons c
  | case4 c cs hfeed hbreak hnone ih => exact (List.nil_sublist cs).cons_cons c
  | case5 c cs hfeed hbreak line rest hsome ih =>
      rw [hsome] at ih
      exact ih.cons_cons c

theorem length_le_of_mem_lines {text line : List Char} (h : line ∈ lines text) :
    line.length ≤ text.length :=
  ((List.sublist_flatten_of_mem h).trans (flatten_lines_sublist text)).length_le

theorem length_le_of_mem_visualLines {text line : List Char} (h : line ∈ visualLines text) :
    line.length ≤ text.length :=
  ((List.sublist_flatten_of_mem h).trans (flatten_visualLines_sublist text)).length_le

/-! ### The last line before a place -/

/-- The number of characters behind the last line feed of a text. -/
def lastWidth (text : List Char) : Nat :=
  (text.reverse.takeWhile (· ≠ '\n')).length

theorem takeWhile_line {line : List Char} (h : '\n' ∉ line) (behind : List Char) :
    (line.reverse ++ behind).takeWhile (· ≠ '\n') = line.reverse ++ behind.takeWhile (· ≠ '\n') := by
  refine List.takeWhile_append_of_pos fun c hc => ?_
  have hfeed : c ≠ '\n' := by
    rintro rfl
    exact h (List.mem_reverse.mp hc)
  simpa using hfeed

theorem lastWidth_of_not_mem {text : List Char} (h : '\n' ∉ text) : lastWidth text = text.length := by
  have hrun := takeWhile_line h []
  rw [List.append_nil] at hrun
  rw [lastWidth, hrun]
  simp

theorem lastWidth_feed (before : List Char) {line : List Char} (h : '\n' ∉ line) :
    lastWidth (before ++ '\n' :: line) = line.length := by
  rw [lastWidth, List.reverse_append, List.reverse_cons, List.append_assoc, takeWhile_line h]
  simp

/-- Text without a line feed widens the last line. -/
theorem lastWidth_append (before : List Char) {line : List Char} (h : '\n' ∉ line) :
    lastWidth (before ++ line) = lastWidth before + line.length := by
  rw [lastWidth, List.reverse_append, takeWhile_line h, List.length_append, List.length_reverse,
    Nat.add_comm]
  rfl

/-- A text without a line feed is its own last line; any other is cut by its last line feed. -/
theorem exists_last_line (text : List Char) :
    '\n' ∉ text ∨ ∃ before line, text = before ++ '\n' :: line ∧ '\n' ∉ line := by
  by_cases h : '\n' ∈ text
  · obtain ⟨line, before, hsplit, hline⟩ := List.eq_append_cons_of_mem (List.mem_reverse.mpr h)
    refine Or.inr ⟨before.reverse, line.reverse, ?_, by simpa using hline⟩
    rw [← List.reverse_reverse text, hsplit]
    simp
  · exact Or.inl h

/-- What stands above the last line has no part in its width. -/
theorem lastWidth_below (above below : List Char) : lastWidth (above ++ '\n' :: below) = lastWidth below := by
  rcases exists_last_line below with hnone | ⟨front, last, rfl, hlast⟩
  · rw [lastWidth_feed above hnone, lastWidth_of_not_mem hnone]
  · have hcut : above ++ '\n' :: (front ++ '\n' :: last) = (above ++ '\n' :: front) ++ '\n' :: last := by simp
    rw [hcut, lastWidth_feed _ hlast, lastWidth_feed front hlast]

/-- A character of a line, or its end, cuts the text behind so many line feeds and so many characters of the line. -/
theorem exists_cut_of_line {text content : List Char} {line character : Nat}
    (hline : (lines text)[line]? = some content) (hcharacter : character ≤ content.length) :
    ∃ before behind, text = before ++ behind ∧ before.count '\n' = line ∧ lastWidth before = character := by
  -- the characters before a place in the first line
  have hfirst : ∀ first : List Char, '\n' ∉ first → character ≤ first.length →
      (first.take character).count '\n' = 0 ∧ lastWidth (first.take character) = character := by
    intro first hfeed hle
    have hnone : '\n' ∉ first.take character := fun hmem => hfeed (List.mem_of_mem_take hmem)
    refine ⟨List.count_eq_zero.mpr hnone, ?_⟩
    rw [lastWidth_of_not_mem hnone, List.length_take, Nat.min_eq_left hle]
  induction line generalizing text with
  | zero =>
      by_cases hfeed : '\n' ∈ text
      · obtain ⟨first, rest, rfl, hnone⟩ := List.eq_append_cons_of_mem hfeed
        rw [lines_append_feed hnone] at hline
        obtain rfl : first = content := Option.some.inj hline
        refine ⟨first.take character, first.drop character ++ '\n' :: rest, ?_, hfirst first hnone hcharacter⟩
        rw [← List.append_assoc, List.take_append_drop]
      · rw [lines_of_not_mem hfeed] at hline
        obtain rfl : text = content := Option.some.inj hline
        exact ⟨_, _, (List.take_append_drop character text).symm, hfirst text hfeed hcharacter⟩
  | succ line ih =>
      by_cases hfeed : '\n' ∈ text
      · obtain ⟨first, rest, rfl, hnone⟩ := List.eq_append_cons_of_mem hfeed
        rw [lines_append_feed hnone, List.getElem?_cons_succ] at hline
        obtain ⟨before, behind, rfl, hcount, hwidth⟩ := ih hline
        refine ⟨first ++ '\n' :: before, behind, by simp, ?_, ?_⟩
        · rw [List.count_append, List.count_cons_self, List.count_eq_zero.mpr hnone, hcount, Nat.zero_add]
        · rw [lastWidth_below, hwidth]
      · rw [lines_of_not_mem hfeed] at hline
        cases hline

/-- What stands right before a line feed, with no line feed in it, ends a line. -/
theorem exists_mem_lines {part : List Char} (h : '\n' ∉ part) (front behind : List Char) :
    ∃ start, start ++ part ∈ lines (front ++ part ++ '\n' :: behind) := by
  rw [lines_feed]
  rcases exists_last_line front with hnone | ⟨above, start, rfl, hstart⟩
  · refine ⟨front, List.mem_append_left _ ?_⟩
    rw [lines_of_not_mem (by simp [hnone, h])]
    exact List.mem_singleton_self _
  · refine ⟨start, List.mem_append_left _ ?_⟩
    have hline : lines (start ++ part) = [start ++ part] := lines_of_not_mem (by simp [hstart, h])
    rw [List.append_assoc, List.cons_append, lines_feed, hline]
    exact List.mem_append_right _ (List.mem_singleton_self _)

theorem lastWidth_le (text : List Char) : lastWidth text ≤ text.length := by
  rcases exists_last_line text with hnone | ⟨front, last, rfl, hlast⟩
  · exact Nat.le_of_eq (lastWidth_of_not_mem hnone)
  · rw [lastWidth_feed front hlast, List.length_append, List.length_cons]
    omega

/-- Only a text without a line feed is as wide as it is long. -/
theorem not_mem_of_lastWidth_eq {text : List Char} (h : lastWidth text = text.length) : '\n' ∉ text := by
  rcases exists_last_line text with hnone | ⟨front, last, rfl, hlast⟩
  · exact hnone
  · rw [lastWidth_feed front hlast, List.length_append, List.length_cons] at h
    omega

end ScriptLens.Text
