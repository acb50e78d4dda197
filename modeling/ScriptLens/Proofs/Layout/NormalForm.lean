import ScriptLens.Proofs.Layout.Invariance
import ScriptLens.Proofs.Layout.Stretch

/-!
# The normal form of a formatted text

What can be said of a formatted text without its source.  Blank lines stand alone and never in front.  Every other
line is indented by a level that can be counted along the lines above it.  A block is opened at the end of a line and
closed at the start of one, unless there is nothing in it.

The lines of a formatted text are its rows with their indentation, so the first two are about rows.  The last one was
settled before there were any lines, but the rows of a formatted text are still broken at every brace where a line
has to end.

Main statement: `format_normalForm`.
-/

namespace ScriptLens.Layout

open Text

/-! ### Levels of indentation -/

/-- The level of a line with this content, given the level that was reached above it. -/
def levelOf (reached : Nat) (content : List Char) : Nat :=
  if content.head? = some '}' ∨ content.head? = some ']' then reached - 1 else reached

/-- The level that is reached behind a line with this content. -/
def levelBehind (reached : Nat) (content : List Char) : Nat :=
  if content.getLast? = some '{' ∨ content.getLast? = some '[' then levelOf reached content + 1
  else levelOf reached content

/-- The level that is reached behind some lines, by the contents of those that are not blank. -/
def levelBelow (reached : Nat) (above : List (List Char)) : Nat :=
  ((above.filter (· ≠ [])).map trim).foldl levelBehind reached

theorem levelBelow_blank (reached : Nat) (above : List (List Char)) :
    levelBelow reached ([] :: above) = levelBelow reached above := by
  simp [levelBelow]

theorem levelBelow_text (reached : Nat) {line : List Char} (h : line ≠ []) (above : List (List Char)) :
    levelBelow reached (line :: above) = levelBelow (levelBehind reached (trim line)) above := by
  simp [levelBelow, h]

theorem indent_blank (tab level : Nat) (rest : List (List Char)) :
    indent tab level ([] :: rest) = [] :: indent tab level rest :=
  rfl

/-- A row with text is indented by its level. -/
theorem indent_text (tab level : Nat) {row : List Char} (h : row ≠ []) (rest : List (List Char)) :
    indent tab level (row :: rest) =
      (List.replicate (levelOf level row * tab) ' ' ++ row) :: indent tab (levelBehind level row) rest := by
  simp [indent, h, levelOf, levelBehind, startsWithCloser, endsWithOpener]

/-! ### Normal form -/

/-- A text in normal form, with so many columns for each level of indentation. -/
structure NormalForm (tab : Nat) (text : List Char) : Prop where
  /-- A text that is not empty does not start with a blank line. -/
  first : text = [] ∨ (lines text).head? ≠ some []
  /-- No two blank lines follow each other. -/
  apart : (lines text).IsChain fun line below => line ≠ [] ∨ below ≠ []
  /-- Every other line is its content behind the columns of its level. -/
  indented : ∀ above line below, lines text = above ++ line :: below → line ≠ [] →
    IsRow (trim line) ∧
      line = List.replicate (levelOf (levelBelow 0 above) (trim line) * tab) ' ' ++ trim line
  /-- An opening brace with something in it ends its line. -/
  opened : ∀ front behind c, text = front ++ '{' :: behind → (visible behind).head? = some c → c ≠ '}' →
    behind.head? = some '\n'
  /-- A closing brace with something before it stands behind nothing but blanks on its line. -/
  closed : ∀ front behind c, text = front ++ '}' :: behind → (visible front).getLast? = some c → c ≠ '{' →
    ∃ above lead, front = above ++ '\n' :: lead ∧ '\n' ∉ lead ∧ ∀ d ∈ lead, isBlank d = true

/-! ### Blank lines -/

/-- Tidy rows do not start with a blank one, and no two blank ones follow each other. -/
theorem Tidy.blank_rows {row : List Char} {rest : List (List Char)} (h : Tidy (row :: rest)) :
    row ≠ [] ∧ (row :: rest).IsChain fun line below => line ≠ [] ∨ below ≠ [] := by
  have hsqueezed := h.squeezed
  have hrow : row ≠ [] := by
    rintro rfl
    have hdrop := dropWhile_squeeze ([] :: rest)
    rw [hsqueezed] at hdrop
    have hlength := congrArg List.length hdrop
    have hle := (List.dropWhile_suffix (p := List.isEmpty) (l := rest)).length_le
    simp only [List.dropWhile_cons_of_pos, List.isEmpty_nil, List.length_cons] at hlength
    omega
  refine ⟨hrow, ?_⟩
  rw [squeeze_text hrow] at hsqueezed
  have hchain := List.isChain_destutter' (fun line below : List Char => line ≠ [] ∨ below ≠ []) rest row
  rw [destutter'_eq_squeeze, decide_eq_true hrow, hsqueezed] at hchain
  exact hchain

/-- Indenting rows brings no blank lines together. -/
theorem isChain_indent {tab level : Nat} {ls : List (List Char)} (h : ∀ row ∈ ls, row = [] ∨ IsRow row)
    (hchain : ls.IsChain fun line below => line ≠ [] ∨ below ≠ []) :
    (indent tab level ls).IsChain fun line below => line ≠ [] ∨ below ≠ [] := by
  have hnil : ∀ line, trim line ≠ [] → line ≠ [] := by
    rintro line hline rfl
    exact hline rfl
  have htrim : (indent tab level ls).map trim = ls := map_trim_indent h
  rw [← htrim] at hchain
  exact List.isChain_of_isChain_map trim (fun line below => Or.imp (hnil line) (hnil below)) hchain

/-! ### Indentation -/

/-- Each line of indented rows stands at the level that the lines above it lead to. -/
theorem indented_of_indent {tab level : Nat} {ls above below : List (List Char)} {line : List Char}
    (h : ∀ row ∈ ls, row = [] ∨ IsRow row) (hcut : indent tab level ls = above ++ line :: below)
    (hline : line ≠ []) :
    IsRow (trim line) ∧
      line = List.replicate (levelOf (levelBelow level above) (trim line) * tab) ' ' ++ trim line := by
  induction ls generalizing level above with
  | nil => simp [indent] at hcut
  | cons row rest ih =>
      have hrest := fun r hr => h r (List.mem_cons_of_mem row hr)
      have htrim : (indent tab level (row :: rest)).map trim = row :: rest := map_trim_indent h
      rcases h row List.mem_cons_self with rfl | hrow
      · rw [indent_blank] at hcut
        cases above with
        | nil => exact absurd (List.cons.inj hcut).1.symm hline
        | cons first above =>
            obtain ⟨rfl, hbelow⟩ := List.cons.inj hcut
            rw [levelBelow_blank]
            exact ih hrest hbelow
      · rw [indent_text tab level hrow.ne_nil] at hcut htrim
        have hcontent := (List.cons.inj htrim).1
        cases above with
        | nil =>
            obtain ⟨rfl, -⟩ := List.cons.inj hcut
            rw [hcontent]
            exact ⟨hrow, rfl⟩
        | cons first above =>
            obtain ⟨rfl, hbelow⟩ := List.cons.inj hcut
            rw [levelBelow_text level (by simp [hrow.ne_nil]), hcontent]
            exact ih hrest hbelow

/-- A line of indented rows ends with a visible character. -/
theorem exists_last_of_indent {tab level : Nat} {ls : List (List Char)} {line : List Char}
    (h : ∀ row ∈ ls, row = [] ∨ IsRow row) (hmem : line ∈ indent tab level ls) (hline : line ≠ []) :
    ∃ init d, line = init ++ [d] ∧ isBlank d = false := by
  obtain ⟨above, below, hcut⟩ := List.append_of_mem hmem
  obtain ⟨hcontent, hplace⟩ := indented_of_indent h hcut hline
  obtain ⟨init, d, hd, vd⟩ := hcontent.last
  refine ⟨List.replicate (levelOf (levelBelow level above) (trim line) * tab) ' ' ++ init, d, ?_, vd⟩
  rw [List.append_assoc, ← hd, ← hplace]

/-! ### Braces -/

/-- The first visible character of a text stands behind a gap. -/
theorem exists_gap_before {cs : List Char} {c : Char} (h : (visible cs).head? = some c) :
    ∃ (g : Gap) (rest : List Char), cs = g.chars ++ c :: rest ∧ isBlank c = false := by
  rw [← Spaced.text_ofChars cs] at h ⊢
  rw [Spaced.visible_text] at h
  cases hcs : Spaced.ofChars cs with
  | last g =>
      rw [hcs] at h
      cases h
  | next g d v rest =>
      rw [hcs] at h
      obtain rfl : d = c := Option.some.inj h
      exact ⟨g, rest.text, rfl, v⟩

/-- The last visible character of a text stands before a gap. -/
theorem exists_gap_behind {cs : List Char} {c : Char} (h : (visible cs).getLast? = some c) :
    ∃ (front : List Char) (g : Gap), cs = front ++ c :: g.chars ∧ isBlank c = false := by
  have hreverse : (visible cs.reverse).head? = some c := by
    rw [visible, List.filter_reverse, List.head?_reverse]
    exact h
  obtain ⟨g, rest, hcut, v⟩ := exists_gap_before hreverse
  refine ⟨rest.reverse, ⟨g.chars.reverse, fun b hb => g.blank b (List.mem_reverse.mp hb)⟩, ?_, v⟩
  rw [← List.reverse_reverse cs, hcut]
  simp

/-- What follows a part of a broken text is broken behind the last visible character of that part. -/
theorem Spaced.Broken.of_append {r rest : Spaced} {before c : Char} (h : (r.append rest).Broken before)
    (hc : r.lastOf (some before) = some c) : rest.Broken c := by
  induction r generalizing before with
  | last g =>
      obtain rfl : before = c := Option.some.inj hc
      exact h
  | next g d v r ih => exact ih h.2 hc

/-- Where a line has to end, a text with settled rows has one line feed. -/
theorem feeds_of_settled {text front behind : List Char} {c d : Char} {g : Gap} (h : Settled (rows text))
    (hcut : text = front ++ c :: (g.chars ++ d :: behind)) (vc : isBlank c = false) (vd : isBlank d = false)
    (hbreaks : breaksLine c d = true) : g.feeds = 1 := by
  have hparts : (Spaced.ofChars text).text = (front ++ [c]) ++ (g.chars ++ d :: behind) := by
    rw [Spaced.text_ofChars, hcut]
    simp
  have hlast : (front ++ [c]).getLast? = some c := List.getLast?_concat
  obtain ⟨r, rest, hr, hfront, hrest⟩ := Spaced.exists_append hparts fun e he => by
    rw [hlast] at he
    rwa [← Option.some.inj he]
  obtain ⟨g', rest', rfl, hg, -⟩ := Spaced.exists_next_gap hrest g.blank vd
  rw [Gap.eq_of_chars hg] at hr
  rw [← hfront] at hlast
  rw [← Spaced.text_ofChars text, hr] at h
  cases r with
  | last k =>
      have hblank := k.blank c (List.mem_of_getLast? hlast)
      rw [vc] at hblank
      cases hblank
  | next k e v r =>
      have hbehind : r.lastOf (some e) = some c := Spaced.lastOf_of_getLast? hlast vc none
      rw [Spaced.append_next, rows_next] at h
      have hbroken := ((Spaced.settled_rowsFrom_iff _ [] v).mp h).2
      exact (hbroken.of_append hbehind).1 hbreaks

/-- Where no line ends with a blank, the line feed in a gap is the first of its blanks. -/
theorem feed_of_trimmed {text front behind : List Char} {c : Char} {g : Gap}
    (hends : ∀ line ∈ lines text, line ≠ [] → ∃ init d, line = init ++ [d] ∧ isBlank d = false)
    (hcut : text = front ++ c :: (g.chars ++ behind)) (vc : isBlank c = false) (hg : g.feeds ≠ 0) :
    ∃ rest, g.chars = '\n' :: rest := by
  obtain ⟨before, after, hsplit, hbefore, -⟩ := Gap.exists_feed hg
  have hline : '\n' ∉ c :: before.chars := by
    simp [IsRow.ne_feed vc, Gap.not_mem_of_feeds hbefore]
  obtain ⟨start, hmem⟩ := exists_mem_lines hline front (after.chars ++ behind)
  have htext : front ++ (c :: before.chars) ++ '\n' :: (after.chars ++ behind) = text := by
    rw [hcut, hsplit]
    simp
  rw [htext] at hmem
  obtain ⟨init, d, hlast, vd⟩ := hends _ hmem (by simp)
  rcases List.eq_nil_or_concat before.chars with hnil | ⟨more, b, hmore⟩
  · exact ⟨after.chars, by rw [hsplit, hnil, List.nil_append]⟩
  · have hb : b = d := by
      have hsame := congrArg List.getLast? hlast
      rw [hmore, List.concat_eq_append, ← List.cons_append, ← List.append_assoc, List.getLast?_concat,
        List.getLast?_concat] at hsame
      exact Option.some.inj hsame
    have hblank := before.blank b (by simp [hmore])
    rw [hb, vd] at hblank
    cases hblank

/-- An opening brace with something in it ends its line. -/
theorem head?_behind_opening {text front behind : List Char} {c : Char} (hsettled : Settled (rows text))
    (hends : ∀ line ∈ lines text, line ≠ [] → ∃ init d, line = init ++ [d] ∧ isBlank d = false)
    (hcut : text = front ++ '{' :: behind) (hnext : (visible behind).head? = some c) (hc : c ≠ '}') :
    behind.head? = some '\n' := by
  obtain ⟨g, rest, rfl, vc⟩ := exists_gap_before hnext
  have hbreaks : breaksLine '{' c = true := by simp [breaksLine, opensLine, hc]
  have hone := feeds_of_settled hsettled hcut (by decide) vc hbreaks
  obtain ⟨more, hmore⟩ := feed_of_trimmed hends hcut (by decide) (by omega)
  rw [hmore]
  rfl

/-- A closing brace with something before it starts its line. -/
theorem exists_lead_of_closing {text front behind : List Char} {c : Char} (hsettled : Settled (rows text))
    (hcut : text = front ++ '}' :: behind) (hlast : (visible front).getLast? = some c) (hc : c ≠ '{') :
    ∃ above lead, front = above ++ '\n' :: lead ∧ '\n' ∉ lead ∧ ∀ d ∈ lead, isBlank d = true := by
  obtain ⟨front, g, rfl, vc⟩ := exists_gap_behind hlast
  rw [List.append_assoc, List.cons_append] at hcut
  have hbreaks : breaksLine c '}' = true := by simp [breaksLine, closesLine, hc]
  have hone := feeds_of_settled hsettled hcut vc (by decide) hbreaks
  obtain ⟨before, after, hsplit, -, hcount⟩ := Gap.exists_feed (g := g) (by omega)
  refine ⟨front ++ c :: before.chars, after.chars, ?_, Gap.not_mem_of_feeds (by omega), after.blank⟩
  rw [hsplit]
  simp

/-! ### Formatted texts -/

theorem normalForm_nil (tab : Nat) : NormalForm tab [] where
  first := .inl rfl
  apart := List.IsChain.singleton []
  indented above line below hcut hline := by
    cases above with
    | nil => exact absurd (List.cons.inj hcut).1.symm hline
    | cons first above => simp [lines, pieces] at hcut
  opened front behind c hcut := by simp at hcut
  closed front behind c hcut := by simp at hcut

/-- Tidy rows that are broken at braces give a text in normal form. -/
theorem normalForm_unlines_indent {ls : List (List Char)} (htidy : Tidy ls) (hsettled : Settled ls)
    (tab : Nat) : NormalForm tab (unlines (indent tab 0 ls)) := by
  cases ls with
  | nil => exact normalForm_nil tab
  | cons row rest =>
      obtain ⟨hrow, hchain⟩ := htidy.blank_rows
      have hlines : lines (unlines (indent tab 0 (row :: rest))) = indent tab 0 (row :: rest) :=
        lines_unlines (indent_ne_nil tab 0 (List.cons_ne_nil row rest)) fun line hline =>
          htidy.feed_not_mem_indent hline
      have hbroken : Settled (rows (unlines (indent tab 0 (row :: rest)))) := by
        rw [rows_unlines_indent htidy]
        exact hsettled
      refine ⟨.inr ?_, ?_, ?_, fun front behind c => ?_, fun front behind c => ?_⟩
      · rw [hlines, indent_text tab 0 hrow]
        simp [hrow]
      · rw [hlines]
        exact isChain_indent htidy.row hchain
      · rw [hlines]
        exact fun above line below hcut hline => indented_of_indent htidy.row hcut hline
      · refine head?_behind_opening hbroken ?_
        rw [hlines]
        exact fun line hmem hline => exists_last_of_indent htidy.row hmem hline
      · exact exists_lead_of_closing hbroken

/-- A formatted text is in normal form, with the columns that were asked for, or four if they are not positive. -/
theorem format_normalForm (source : String) (requested : Int) :
    NormalForm (if 0 < requested then requested.toNat else 4) (format source requested).toList := by
  have htab : (if 0 < requested then requested.toNat else 4) = tabSize requested := by
    by_cases h : 0 < requested
    · simp [tabSize, h, Int.not_le.mpr h]
    · simp [tabSize, h, Int.not_lt.mp h, defaultTabSize]
  have htidy := tidy_rows (breakAtBraces source.toList)
  rw [htab, format, String.toList_ofList, formatChars_eq_indent]
  exact normalForm_unlines_indent htidy.finish
    ((settled_rows_breakAtBraces source.toList).finish htidy.row) (tabSize requested)

end ScriptLens.Layout
