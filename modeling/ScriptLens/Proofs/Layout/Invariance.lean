import Mathlib.Data.List.Destutter
import Mathlib.Data.List.Forall2
import ScriptLens.Proofs.Layout.Laid

/-!
# What formatting does not look at

The contents of a text are its lines without the blanks around them, with blank lines in a row taken together and
none in front.  A line may end with a line feed, or with a carriage return before it.  Two texts with the same
contents are formatted alike: indentation, blanks at the end of a line, further blank lines and the kind of line
ends do not matter, not even around a brace where a line is broken.

The contents are the rows that the formatter works with.  It looks for braces before it looks for rows, though, so
the rows are put together again to a text, in which each gap has what its rows tell of it.  Breaking that text at
braces and breaking the text itself gives the same rows.

Main statements: `rows_breakAtBraces_unlines` and `format_eq_of_lineContents_eq`.
-/

namespace ScriptLens.Layout

open Text

/-! ### The contents of the lines -/

/-- The lines of a text that may end with a carriage return and a line feed. -/
def brokenLines : List Char → List (List Char)
  | [] => [[]]
  | '\r' :: '\n' :: cs => [] :: brokenLines cs
  | c :: cs =>
      if c = '\n' then [] :: brokenLines cs
      else
        match brokenLines cs with
        | [] => [[c]]
        | line :: rest => (c :: line) :: rest

/-- Take blank lines in a row together. -/
def collapseBlank (ls : List (List Char)) : List (List Char) :=
  ls.destutter fun line below => line ≠ [] ∨ below ≠ []

/-- The contents of the lines of a text. -/
def lineContents (text : List Char) : List (List Char) :=
  (collapseBlank ((brokenLines text).map trim)).dropWhile List.isEmpty

/-- Trimming drops a gap behind. -/
theorem trim_append_gap (line : List Char) (g : Gap) : trim (line ++ g.chars) = trim line := by
  induction line with
  | nil => rw [List.nil_append, trim, Gap.trimLeft_chars]; rfl
  | cons c cs ih =>
      cases hc : isBlank c with
      | true => simpa [trim, trimLeft, hc] using ih
      | false => simpa [trim, trimLeft, hc] using g.trimRight_append (c :: cs)

/-- A line that ends with a line feed may have a carriage return more. -/
theorem forall₂_lines_brokenLines (text : List Char) :
    List.Forall₂ (fun line broken => line = broken ∨ line = broken ++ ['\r']) (lines text) (brokenLines text) := by
  fun_induction brokenLines text with
  | case1 => exact .cons (.inl rfl) .nil
  | case2 cs ih => exact .cons (.inr rfl) ih
  | case3 cs h ih => exact .cons (.inl rfl) ih
  | case4 c cs hpair hc hnone ih =>
      obtain ⟨first, rest, hlines⟩ := List.exists_cons_of_ne_nil (lines_ne_nil cs)
      rw [hnone, hlines] at ih
      cases ih
  | case5 c cs hpair hc line rest hbroken ih =>
      have hfeed : '\n' ∉ [c] := by simpa using Ne.symm hc
      obtain ⟨first, below, hlines, hcons⟩ := lines_append hfeed cs
      rw [hbroken, hlines] at ih
      obtain ⟨hfirst, hbelow⟩ := List.forall₂_cons.mp ih
      have hwhole : lines (c :: cs) = (c :: first) :: below := hcons
      rw [hwhole]
      exact .cons (hfirst.imp (congrArg (c :: ·)) (congrArg (c :: ·))) hbelow

theorem map_trim_brokenLines (text : List Char) : (brokenLines text).map trim = (lines text).map trim := by
  have hreturn : ∀ line, trim (line ++ ['\r']) = trim line :=
    fun line => trim_append_gap line ⟨['\r'], List.all_eq_true.mp (by decide)⟩
  have hlines := forall₂_lines_brokenLines text
  generalize lines text = ls, brokenLines text = broken at hlines
  induction hlines with
  | nil => rfl
  | cons hfirst _ ih =>
      rcases hfirst with rfl | rfl
      · rw [List.map_cons, List.map_cons, ih]
      · rw [List.map_cons, List.map_cons, hreturn, ih]

/-- Taking blank lines together leaves one of them behind a line with text. -/
theorem destutter'_eq_squeeze (row : List Char) (ls : List (List Char)) :
    ls.destutter' (fun line below => line ≠ [] ∨ below ≠ []) row = row :: squeeze (row ≠ []) ls := by
  induction ls generalizing row with
  | nil => rfl
  | cons below ls ih =>
      by_cases hbelow : below = []
      · by_cases hrow : row = []
        · simp [hrow, hbelow, ih]
        · simp [hrow, hbelow, ih]
      · simp [hbelow, ih]

/-- Without blank rows in front there are none to drop. -/
theorem dropWhile_squeeze (ls : List (List Char)) :
    (squeeze false ls).dropWhile List.isEmpty = squeeze false ls := by
  induction ls with
  | nil => rfl
  | cons row rest ih =>
      by_cases hrow : row = []
      · simpa [hrow] using ih
      · simp [hrow]

/-- The contents of the lines are the rows of the text. -/
theorem lineContents_eq_rows (text : List Char) : lineContents text = rows text := by
  rw [lineContents, collapseBlank, rows, map_trim_brokenLines]
  cases (lines text).map trim with
  | nil => rfl
  | cons row rest =>
      rw [List.destutter_cons', destutter'_eq_squeeze]
      by_cases hrow : row = []
      · simp [hrow, dropWhile_squeeze]
      · simp [hrow]

/-! ### Rows put together -/

/-- A gap with what the rows around it tell of it: its blanks within a row, and otherwise whether a blank row stands
there. -/
def Gap.tidy (g : Gap) : Gap :=
  if g.feeds = 0 then g
  else if g.feeds = 1 then .feed
  else .cons '\n' (by decide) .feed

/-- A text with what its rows tell of its gaps. -/
def Spaced.tidy : Spaced → Spaced
  | .last g => .last (if g.feeds = 0 then .none else .feed)
  | .next g c v rest => .next g.tidy c v rest.tidy

/-- Rows are put together to the tidy text. -/
theorem Spaced.unlines_rowsFrom (t : Spaced) (current : List Char) :
    unlines (t.rowsFrom current) = current ++ t.tidy.text := by
  induction t generalizing current with
  | last g =>
      rw [rowsFrom, tidy]
      split
      · simp
      · simp
  | next g c v rest ih =>
      have hbelow := rest.rowsFrom_ne_nil [c]
      rw [rowsFrom, tidy, Gap.tidy]
      split
      · rw [ih]
        simp
      · split
        · rw [unlines_cons _ hbelow, ih]
          simp
        · rw [unlines_cons _ (List.cons_ne_nil _ _), unlines_cons _ hbelow, ih]
          simp [Gap.cons]

theorem Gap.feeds_tidy (g : Gap) : g.tidy.feeds = min g.feeds 2 := by
  rw [tidy]
  split
  · rename_i h
    rw [h]
    rfl
  · split
    · rename_i h
      rw [h]
      rfl
    · have htwo : (Gap.cons '\n' (by decide) .feed).feeds = 2 := rfl
      omega

/-- A tidy gap gives the rows that the gap gives. -/
theorem Spaced.rowsFrom_next_tidy (g : Gap) (c : Char) (v : isBlank c = false) (rest : Spaced)
    (current : List Char) :
    (Spaced.next g.tidy c v rest).rowsFrom current = (Spaced.next g c v rest).rowsFrom current := by
  rw [rowsFrom, rowsFrom, Gap.feeds_tidy]
  by_cases hzero : g.feeds = 0
  · have hkept : g.tidy = g := if_pos hzero
    rw [hkept, hzero]
    rfl
  · by_cases hone : g.feeds = 1
    · rw [hone]
      rfl
    · rw [if_neg hzero, if_neg hone, if_neg (by omega), if_neg (by omega)]

/-- Lines are broken in a tidy text where they are broken in the text. -/
theorem Spaced.rowsFrom_respace_tidy (t : Spaced) (before : Option Char) (current : List Char) :
    (t.tidy.respace breakSpacer before).rowsFrom current = (t.respace breakSpacer before).rowsFrom current := by
  induction t generalizing before current with
  | last g =>
      rw [tidy, respace, respace, rowsFrom, rowsFrom]
      by_cases hzero : g.feeds = 0
      · rw [if_pos hzero]
        exact (if_pos hzero).symm
      · rw [if_neg hzero]
        exact (if_neg hzero).symm
  | next g c v rest ih =>
      have hbelow : ∀ k : Gap,
          (Spaced.next k c v (rest.tidy.respace breakSpacer (some c))).rowsFrom current =
            (Spaced.next k c v (rest.respace breakSpacer (some c))).rowsFrom current := by
        intro k
        simp only [rowsFrom, ih]
      have hbetween : ∀ (k : Gap) (below : Spaced), breakSpacer.between before k c below =
          if before.any (breaksLine · c) then .feed else k := fun _ _ => rfl
      rw [tidy, respace, respace, hbetween, hbetween]
      refine (hbelow _).trans ?_
      split
      · rfl
      · exact rowsFrom_next_tidy g c v _ current

/-- Breaking lines at braces sees no more of a text than its rows. -/
theorem rows_breakAtBraces_unlines (source : List Char) :
    rows (breakAtBraces (unlines (rows source))) = rows (breakAtBraces source) := by
  rw [← Spaced.text_ofChars source]
  cases Spaced.ofChars source with
  | last g =>
      have hnone : unlines (rows (Spaced.last g).text) = (Spaced.last .none).text := by
        rw [rows_last]
        rfl
      rw [hnone, breakAtBraces_text, breakAtBraces_text]
      exact (rows_last _).trans (rows_last _).symm
  | next g c v rest =>
      have hrows : unlines (rows (Spaced.next g c v rest).text) = (Spaced.next .none c v rest.tidy).text := by
        rw [rows_next, Spaced.unlines_rowsFrom]
        rfl
      rw [hrows, breakAtBraces_text, breakAtBraces_text, Spaced.respace, Spaced.respace, rows_next, rows_next]
      exact rest.rowsFrom_respace_tidy (some c) [c]

theorem formatChars_unlines_rows (tab : Nat) (source : List Char) :
    formatChars tab (unlines (rows source)) = formatChars tab source := by
  rw [formatChars_eq_indent, rows_breakAtBraces_unlines, ← formatChars_eq_indent]

/-- Texts with the same contents are formatted alike. -/
theorem format_eq_of_lineContents_eq {a b : String} (h : lineContents a.toList = lineContents b.toList)
    (requested : Int) : format a requested = format b requested := by
  rw [lineContents_eq_rows, lineContents_eq_rows] at h
  rw [format, format, ← formatChars_unlines_rows _ a.toList, h, formatChars_unlines_rows]

/-- A block with other line ends, other indentation and further blank lines. -/
theorem format_eq_of_lineContents_eq_block :
    "\r\n  if (x) \x7b\r\n\r\n \r\n\ty = 1  \r\n  \x7d\r\n\r\n" ≠ "if (x) \x7b\n\ny = 1\n\x7d\n" ∧
      lineContents "\r\n  if (x) \x7b\r\n\r\n \r\n\ty = 1  \r\n  \x7d\r\n\r\n".toList =
        lineContents "if (x) \x7b\n\ny = 1\n\x7d\n".toList ∧
      format "\r\n  if (x) \x7b\r\n\r\n \r\n\ty = 1  \r\n  \x7d\r\n\r\n" 2 =
        format "if (x) \x7b\n\ny = 1\n\x7d\n" 2 := by
  have hcontents :
      lineContents "\r\n  if (x) \x7b\r\n\r\n \r\n\ty = 1  \r\n  \x7d\r\n\r\n".toList =
        lineContents "if (x) \x7b\n\ny = 1\n\x7d\n".toList := by
    decide +kernel
  exact ⟨by decide, hcontents, format_eq_of_lineContents_eq hcontents 2⟩

end ScriptLens.Layout
