import ScriptLens.Layout.Format
import ScriptLens.Proofs.Layout.Rules
import ScriptLens.Proofs.Text.Lines

/-!
# The rows of a text

The formatter looks at a text as a list of rows: its lines without the blanks around them, without blank
rows at the front and without a second blank row in a row.  The rows can be read off the gaps of the
text, since a gap with a line feed ends a row, and one with two leaves a blank row behind.

Main statement: `rows_next` reads the rows off a spaced text.
-/

namespace ScriptLens.Layout

open Text

/-! ### Rows -/

/-- Drop blank rows, except a single one right behind a row with text. -/
def squeeze : (afterText : Bool) → List (List Char) → List (List Char)
  | _, [] => []
  | afterText, row :: rest =>
      if row.isEmpty then
        if afterText then [] :: squeeze false rest else squeeze false rest
      else row :: squeeze true rest

/-- The rows of a text. -/
def rows (text : List Char) : List (List Char) :=
  squeeze false ((lines text).map trim)

/-- The number of line feeds in a gap. -/
def Gap.feeds (g : Gap) : Nat :=
  g.chars.count '\n'

/-- The rows of a text whose first row starts with `current`. -/
def Spaced.rowsFrom (current : List Char) : Spaced → List (List Char)
  | .last g => if g.feeds = 0 then [current] else [current, []]
  | .next g c _ rest =>
      if g.feeds = 0 then rest.rowsFrom (current ++ g.chars ++ [c])
      else if g.feeds = 1 then current :: rest.rowsFrom [c]
      else current :: [] :: rest.rowsFrom [c]

@[simp] theorem squeeze_text {row : List Char} (h : row ≠ []) (afterText : Bool)
    (rest : List (List Char)) : squeeze afterText (row :: rest) = row :: squeeze true rest := by
  simp [squeeze, h]

@[simp] theorem squeeze_blank (afterText : Bool) (rest : List (List Char)) :
    squeeze afterText ([] :: rest) =
      if afterText then [] :: squeeze false rest else squeeze false rest := by
  simp [squeeze]

theorem Gap.not_mem_of_feeds {g : Gap} (h : g.feeds = 0) : '\n' ∉ g.chars :=
  List.count_eq_zero.mp h

/-- A gap with a line feed splits at its first one. -/
theorem Gap.exists_feed {g : Gap} (h : g.feeds ≠ 0) :
    ∃ before after : Gap, g.chars = before.chars ++ '\n' :: after.chars ∧ before.feeds = 0 ∧
      g.feeds = after.feeds + 1 := by
  have hmem : '\n' ∈ g.chars := List.count_pos_iff.mp (Nat.pos_of_ne_zero h)
  obtain ⟨before, after, hsplit, hbefore⟩ := List.eq_append_cons_of_mem hmem
  have hblank := g.blank
  rw [hsplit] at hblank
  refine ⟨⟨before, fun c hc => hblank c (List.mem_append_left _ hc)⟩,
    ⟨after, fun c hc => hblank c (List.mem_append_right _ (List.mem_cons_of_mem _ hc))⟩,
    hsplit, List.count_eq_zero.mpr hbefore, ?_⟩
  simp [Gap.feeds, hsplit, List.count_eq_zero.mpr hbefore]

/-- A row with text: it starts and ends with a visible character and has no line feed. -/
structure IsRow (row : List Char) : Prop where
  head : ∃ c rest, row = c :: rest ∧ isBlank c = false
  last : ∃ init c, row = init ++ [c] ∧ isBlank c = false
  feed : '\n' ∉ row

namespace IsRow

theorem ne_nil {row : List Char} (h : IsRow row) : row ≠ [] := by
  obtain ⟨c, rest, rfl, -⟩ := h.head
  exact List.cons_ne_nil c rest

theorem ne_feed {c : Char} (v : isBlank c = false) : '\n' ≠ c := by
  rintro rfl
  exact absurd v (by decide)

theorem singleton {c : Char} (v : isBlank c = false) : IsRow [c] where
  head := ⟨c, [], rfl, v⟩
  last := ⟨[], c, rfl, v⟩
  feed := by simpa using ne_feed v

/-- A row goes on behind a gap without line feeds. -/
theorem append {row : List Char} (h : IsRow row) {g : Gap} (hg : g.feeds = 0) {c : Char}
    (v : isBlank c = false) : IsRow (row ++ g.chars ++ [c]) where
  head := by
    obtain ⟨d, rest, rfl, hd⟩ := h.head
    exact ⟨d, rest ++ g.chars ++ [c], by simp, hd⟩
  last := ⟨row ++ g.chars, c, rfl, v⟩
  feed := by simp [h.feed, Gap.not_mem_of_feeds hg, ne_feed v]

/-- The gap behind a row goes when the row is trimmed. -/
theorem trim_append {row : List Char} (h : IsRow row) (g : Gap) : trim (row ++ g.chars) = row := by
  have hleft : trimLeft (row ++ g.chars) = row ++ g.chars := by
    obtain ⟨c, rest, rfl, v⟩ := h.head
    simp [trimLeft, v]
  obtain ⟨init, c, rfl, v⟩ := h.last
  rw [trim, hleft, Gap.trimRight_append]
  simpa [trimRight] using Spaced.trimRight_of_visible init c v []

end IsRow

/-! ### Reading rows off the gaps -/

/-- The line feeds of a gap in front are blank rows. -/
theorem map_trim_lines_gap (text : List Char) (n : Nat) (g : Gap) (hn : g.feeds = n) :
    (lines (g.chars ++ text)).map trim = List.replicate n [] ++ (lines text).map trim := by
  induction n generalizing g with
  | zero =>
      obtain ⟨first, rest, htext, hgap⟩ := lines_append (Gap.not_mem_of_feeds hn) text
      rw [htext, hgap]
      simp [trim, g.trimLeft_append]
  | succ n ih =>
      obtain ⟨before, after, hsplit, hbefore, hafter⟩ := Gap.exists_feed (g := g) (by omega)
      have hblank : trim before.chars = [] := by
        rw [trim, Gap.trimLeft_chars]
        rfl
      rw [hsplit, List.append_assoc, List.cons_append,
        lines_append_feed (Gap.not_mem_of_feeds hbefore), List.map_cons, hblank,
        ih after (by omega)]
      rfl

/-- A gap with line feeds ends a row. -/
theorem map_trim_lines_row {row : List Char} (h : IsRow row) {g : Gap} {n : Nat}
    (hn : g.feeds = n + 1) (text : List Char) :
    (lines (row ++ (g.chars ++ text))).map trim =
      row :: (List.replicate n [] ++ (lines text).map trim) := by
  obtain ⟨before, after, hsplit, hbefore, hafter⟩ := Gap.exists_feed (g := g) (by omega)
  have hline : '\n' ∉ row ++ before.chars := by simp [h.feed, Gap.not_mem_of_feeds hbefore]
  have hcut : row ++ (g.chars ++ text) =
      (row ++ before.chars) ++ '\n' :: (after.chars ++ text) := by
    simp [hsplit]
  rw [hcut, lines_append_feed hline, List.map_cons, h.trim_append,
    map_trim_lines_gap text n after (by omega)]

/-- Of blank rows in a row at most one is left. -/
theorem squeeze_replicate (afterText : Bool) (n : Nat) (rest : List (List Char)) :
    squeeze afterText (List.replicate (n + 1) [] ++ rest) =
      if afterText then [] :: squeeze false rest else squeeze false rest := by
  have hfalse : ∀ m, squeeze false (List.replicate m [] ++ rest) = squeeze false rest := by
    intro m
    induction m with
    | zero => rfl
    | succ m ih => simpa [List.replicate_succ] using ih
  rw [List.replicate_succ, List.cons_append, squeeze_blank, hfalse]

/-- The rows behind the beginning of a row. -/
theorem squeeze_lines_text (t : Spaced) {row : List Char} (h : IsRow row) (afterText : Bool) :
    squeeze afterText ((lines (row ++ t.text)).map trim) = t.rowsFrom row := by
  induction t generalizing row afterText with
  | last g =>
      cases hn : g.feeds with
      | zero =>
          have hline : '\n' ∉ row ++ g.chars := by simp [h.feed, Gap.not_mem_of_feeds hn]
          rw [Spaced.rowsFrom, if_pos hn, Spaced.text_last, lines_of_not_mem hline,
            List.map_singleton, h.trim_append, squeeze_text h.ne_nil, squeeze]
      | succ n =>
          have hrows := map_trim_lines_row h hn []
          have hlast : List.replicate n [] ++ (lines []).map trim =
              List.replicate (n + 1) [] ++ [] := by
            rw [List.replicate_succ', List.append_nil]
            rfl
          rw [List.append_nil, hlast] at hrows
          rw [Spaced.rowsFrom, if_neg (by omega), Spaced.text_last, hrows, squeeze_text h.ne_nil,
            squeeze_replicate]
          rfl
  | next g c v rest ih =>
      have hnext : ∀ b, squeeze b ((lines (c :: rest.text)).map trim) = rest.rowsFrom [c] :=
        ih (IsRow.singleton v)
      rw [Spaced.rowsFrom, Spaced.text_next]
      cases hn : g.feeds with
      | zero =>
          rw [if_pos rfl, ← ih (h.append hn v) afterText]
          simp
      | succ n =>
          rw [if_neg (by omega), map_trim_lines_row h hn, squeeze_text h.ne_nil]
          cases n with
          | zero => simp [hnext]
          | succ n => rw [if_neg (by omega), squeeze_replicate, hnext]; rfl

/-- The rows of a text with visible characters. -/
theorem rows_next (g : Gap) (c : Char) (v : isBlank c = false) (rest : Spaced) :
    rows (Spaced.next g c v rest).text = rest.rowsFrom [c] := by
  have hnext := squeeze_lines_text rest (IsRow.singleton v) false
  rw [rows, Spaced.text_next, map_trim_lines_gap _ _ g rfl]
  cases g.feeds with
  | zero => exact hnext
  | succ n => rw [squeeze_replicate]; exact hnext

/-- A blank text has no rows. -/
theorem rows_last (g : Gap) : rows (Spaced.last g).text = [] := by
  have hgap := map_trim_lines_gap [] _ g rfl
  rw [List.append_nil] at hgap
  rw [rows, Spaced.text_last, hgap]
  cases g.feeds with
  | zero => rfl
  | succ n => rw [squeeze_replicate]; rfl

end ScriptLens.Layout
