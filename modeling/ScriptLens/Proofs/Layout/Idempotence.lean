import Mathlib.Data.List.Chain
import ScriptLens.Proofs.Layout.Arrange

/-!
# Formatting a formatted text

Where lines have to be broken at braces is decided by neighbouring visible characters.  A text whose
lines are broken everywhere they have to be can be told by its rows, and finishing the rows leaves none of
the breaks out.  So a formatted text is not broken any further, its rows are finished rows, and it is laid
out as it was, whatever indentation it had.

Main statement: `format_format`.
-/

namespace ScriptLens.Layout

open Text

/-! ### Line breaks at braces -/

/-- Whether a line ends between two neighbouring visible characters. -/
def breaksLine (c d : Char) : Bool :=
  opensLine c d || closesLine c d

theorem breaksLine_semicolon {c : Char} (h : c ≠ '{') : breaksLine c ';' = false := by
  simp [breaksLine, opensLine, closesLine, h]

/-- A semicolon breaks lines no more than what it stands behind. -/
theorem semicolon_breaksLine {c d : Char} (hc : c ≠ '{') (h : breaksLine c d = false) :
    breaksLine ';' d = false := by
  simpa [breaksLine, opensLine, closesLine, hc] using h

/-- Two rules that set the same gap between neighbours are one. -/
theorem respace_pair_pair (first second : Char → Char → Bool) (gap : Gap) (t : Spaced)
    (before : Option Char) :
    (t.respace (pairSpacer first gap) before).respace (pairSpacer second gap) before =
      t.respace (pairSpacer (fun c d => first c d || second c d) gap) before := by
  induction t generalizing before with
  | last g => rfl
  | next g c v rest ih =>
      rw [Spaced.respace, Spaced.respace, Spaced.respace]
      refine congrArg₂ (fun k u => Spaced.next k c v u) ?_ (ih (some c))
      cases before with
      | none => rfl
      | some b => cases hfirst : first b c <;> cases hsecond : second b c <;>
          simp [pairSpacer, hfirst, hsecond]

/-- Put a line feed wherever a line has to end. -/
def breakSpacer : Spacer (Option Char) :=
  pairSpacer breaksLine .feed

theorem breakAtBraces_text (t : Spaced) :
    breakAtBraces t.text = (t.respace breakSpacer none).text := by
  rw [breakAtBraces, afterOpenBrace_pair.substitute_text, beforeCloseBrace_pair.substitute_text,
    respace_pair_pair]
  rfl

/-- A text behind the visible character `before` that has a single line feed wherever a line has to
end. -/
def Spaced.Broken : (before : Char) → Spaced → Prop
  | _, .last _ => True
  | before, .next g c _ rest => (breaksLine before c = true → g.feeds = 1) ∧ rest.Broken c

/-- Breaking lines breaks all that have to be. -/
theorem Spaced.broken_respace (t : Spaced) (before : Char) :
    (t.respace breakSpacer (some before)).Broken before := by
  induction t generalizing before with
  | last g => trivial
  | next g c v rest ih =>
      refine ⟨fun hbreaks => ?_, ih c⟩
      simp [breakSpacer, pairSpacer, hbreaks, Gap.feeds]

/-- Breaking lines leaves the rows of a broken text. -/
theorem Spaced.rowsFrom_respace {t : Spaced} {before : Char} (h : t.Broken before)
    (current : List Char) :
    (t.respace breakSpacer (some before)).rowsFrom current = t.rowsFrom current := by
  induction t generalizing before current with
  | last g => rfl
  | next g c v rest ih =>
      have hrest := fun row => ih h.2 row
      have hadvance : breakSpacer.advance (some before) g c rest = some c := rfl
      rw [Spaced.respace, Spaced.rowsFrom, Spaced.rowsFrom, hadvance]
      simp only [hrest]
      by_cases hbreaks : breaksLine before c = true
      · have hfeed : breakSpacer.between (some before) g c rest = .feed := by
          simp [breakSpacer, pairSpacer, hbreaks]
        have hone : Gap.feed.feeds = 1 := rfl
        simp [hfeed, hone, h.1 hbreaks]
      · have hkeep : breakSpacer.between (some before) g c rest = g := by
          simp [breakSpacer, pairSpacer, hbreaks]
        rw [hkeep]

/-! ### Settled rows -/

/-- No line has to end inside a row. -/
def Whole (row : List Char) : Prop :=
  (visible row).IsChain fun c d => breaksLine c d = false

/-- No line has to end between a row and the one that a blank row sets apart from it. -/
def Parted (row : List Char) : (rest : List (List Char)) → Prop
  | [] :: below :: _ => ∀ c ∈ row.getLast?, ∀ d ∈ below.head?, breaksLine c d = false
  | _ => True

/-- Rows that are broken at all braces where lines have to end. -/
def Settled : List (List Char) → Prop
  | [] => True
  | row :: rest => Whole row ∧ Parted row rest ∧ Settled rest

theorem parted_text (row : List Char) {below : List Char} (h : below ≠ [])
    (rest : List (List Char)) : Parted row (below :: rest) := by
  obtain ⟨c, cs, rfl⟩ := List.exists_cons_of_ne_nil h
  trivial

theorem whole_nil : Whole [] := List.IsChain.nil

theorem whole_singleton {c : Char} (v : isBlank c = false) : Whole [c] := by
  rw [Whole, visible_cons v]
  exact List.IsChain.singleton c

/-- A row goes on with a character before which no line has to end. -/
theorem whole_append_iff (init : List Char) {c d : Char} (vc : isBlank c = false)
    (vd : isBlank d = false) (g : Gap) :
    Whole (init ++ [c] ++ g.chars ++ [d]) ↔ Whole (init ++ [c]) ∧ breaksLine c d = false := by
  have hc : visible [c] = [c] := visible_cons vc []
  have hd : visible [d] = [d] := visible_cons vd []
  simp only [Whole, visible_append, hc, hd, g.visible_chars, List.append_nil]
  rw [List.isChain_append]
  simp

theorem Spaced.rowsFrom_eq_cons (t : Spaced) (current : List Char) :
    ∃ more rest, t.rowsFrom current = (current ++ more) :: rest := by
  induction t generalizing current with
  | last g =>
      rw [Spaced.rowsFrom]
      split
      · exact ⟨[], [], by simp⟩
      · exact ⟨[], [[]], by simp⟩
  | next g c v rest ih =>
      rw [Spaced.rowsFrom]
      split
      · obtain ⟨more, below, hrows⟩ := ih (current ++ g.chars ++ [c])
        exact ⟨g.chars ++ [c] ++ more, below, by rw [hrows]; simp⟩
      · split
        · exact ⟨[], rest.rowsFrom [c], by simp⟩
        · exact ⟨[], [] :: rest.rowsFrom [c], by simp⟩

/-- Whether a text is broken at braces can be told by its rows. -/
theorem Spaced.settled_rowsFrom_iff (t : Spaced) (init : List Char) {x : Char}
    (v : isBlank x = false) :
    Settled (t.rowsFrom (init ++ [x])) ↔ Whole (init ++ [x]) ∧ t.Broken x := by
  induction t generalizing init x with
  | last g =>
      rw [Spaced.rowsFrom]
      split <;> simp [Settled, Parted, Spaced.Broken, whole_nil]
  | next g c vc rest ih =>
      obtain ⟨more, below, hrows⟩ := rest.rowsFrom_eq_cons [c]
      have hfirst : [c] ++ more ≠ [] := by simp
      have hnext : Settled (rest.rowsFrom [c]) ↔ rest.Broken c := by
        simpa [whole_singleton vc] using ih [] vc
      rw [Spaced.rowsFrom, Spaced.Broken]
      by_cases h0 : g.feeds = 0
      · -- the row goes on, so no line may end here
        rw [if_pos h0, ih _ vc, whole_append_iff init v vc g, h0]
        simp [and_assoc]
      · rw [if_neg h0]
        by_cases h1 : g.feeds = 1
        · have hparted : Parted (init ++ [x]) (rest.rowsFrom [c]) := by
            rw [hrows]
            exact parted_text _ hfirst below
          simp [h1, Settled, hparted, hnext]
        · -- a blank row stands here, so no line may end either
          have hparted : Parted (init ++ [x]) ([] :: rest.rowsFrom [c]) ↔ breaksLine x c = false := by
            simp [hrows, Parted]
          have hblank : Parted [] (rest.rowsFrom [c]) := by
            rw [hrows]
            exact parted_text _ hfirst below
          simp [h1, Settled, hparted, hblank, hnext, whole_nil]

/-- The rows of a text that was broken at its braces are settled. -/
theorem settled_rows_breakAtBraces (text : List Char) : Settled (rows (breakAtBraces text)) := by
  rw [← Spaced.text_ofChars text, breakAtBraces_text]
  cases Spaced.ofChars text with
  | last g =>
      rw [Spaced.respace, rows_last]
      trivial
  | next g c v rest =>
      rw [Spaced.respace, rows_next]
      exact (Spaced.settled_rowsFrom_iff _ [] v).mpr ⟨whole_singleton v, rest.broken_respace c⟩

/-- A text with settled rows keeps them when it is broken at its braces. -/
theorem rows_breakAtBraces {text : List Char} (h : Settled (rows text)) :
    rows (breakAtBraces text) = rows text := by
  rw [← Spaced.text_ofChars text] at h ⊢
  rw [breakAtBraces_text]
  generalize Spaced.ofChars text = t at h ⊢
  cases t with
  | last g => rfl
  | next g c v rest =>
      rw [rows_next] at h
      rw [Spaced.respace, rows_next, rows_next]
      exact Spaced.rowsFrom_respace ((rest.settled_rowsFrom_iff [] v).mp h).2 [c]

/-! ### Finished rows -/

/-- No semicolon goes behind an opening brace. -/
theorem ne_brace_of_lacksSemicolon {row : List Char} (h : lacksSemicolon (normalize row) = true)
    {c : Char} (hc : (visible row).getLast? = some c) : c ≠ '{' := by
  rintro rfl
  have hlast : (normalize row).getLast? = some '{' := by
    rw [← trim_normalize, getLast?_trim, visible_normalize, hc]
  simp [lacksSemicolon, endsWithOpener, hlast] at h

theorem Whole.finishLine {row : List Char} (h : Whole row) : Whole (finishLine row) := by
  rw [Whole] at h ⊢
  rcases visible_finishLine row with ⟨-, hvisible⟩ | ⟨hlacks, hvisible⟩
  · rwa [hvisible]
  · rw [hvisible, List.isChain_append]
    refine ⟨h, List.IsChain.singleton ';', ?_⟩
    intro c hc d hd
    obtain rfl : ';' = d := by simpa using hd
    exact breaksLine_semicolon (ne_brace_of_lacksSemicolon hlacks hc)

/-- Before the same character no line has to end behind a finished row if it did not before. -/
theorem breaksLine_finishLine {row : List Char} (hr : IsRow row) {d : Char}
    (h : ∀ c ∈ row.getLast?, breaksLine c d = false) :
    ∀ c ∈ (finishLine row).getLast?, breaksLine c d = false := by
  have hlast : row.getLast? = (visible row).getLast? := by rw [← getLast?_trim, hr.trim_eq]
  intro c hc
  rw [getLast?_finishLine] at hc
  rcases visible_finishLine row with ⟨-, hvisible⟩ | ⟨hlacks, hvisible⟩
  · rw [hvisible, ← hlast] at hc
    exact h c hc
  · rw [hvisible, List.getLast?_concat] at hc
    obtain rfl : ';' = c := by simpa using hc
    obtain ⟨init, b, rfl, v⟩ := hr.last
    have hb : (init ++ [b]).getLast? = some b := List.getLast?_concat
    exact semicolon_breaksLine (ne_brace_of_lacksSemicolon hlacks (hlast ▸ hb)) (h b hb)

theorem Parted.finish {row : List Char} (hr : row = [] ∨ IsRow row) {rest : List (List Char)}
    (hrest : ∀ below ∈ rest, below = [] ∨ IsRow below) (h : Parted row rest) :
    Parted (finishRow row) (rest.map finishRow) := by
  match rest with
  | [] => trivial
  | [[]] => trivial
  | (c :: cs) :: more =>
      rcases hrest (c :: cs) List.mem_cons_self with hnil | hrow
      · exact absurd hnil (List.cons_ne_nil c cs)
      · rw [List.map_cons, finishRow_text hrow.ne_nil]
        exact parted_text _ hrow.finishLine.ne_nil _
  | [] :: below :: more =>
      intro c hc d hd
      have hbelow : d ∈ below.head? := by
        rcases hrest below (by simp) with rfl | hrow
        · exact hd
        · rwa [finishRow_text hrow.ne_nil, head?_finishLine hrow.trim_eq hrow.ne_nil] at hd
      rcases hr with rfl | hr
      · simp at hc
      · rw [finishRow_text hr.ne_nil] at hc
        exact breaksLine_finishLine hr (fun b hb => h b hb d hbelow) c hc

/-- Finishing rows leaves them settled. -/
theorem Settled.finish {ls : List (List Char)} (hls : ∀ row ∈ ls, row = [] ∨ IsRow row)
    (h : Settled ls) : Settled (ls.map finishRow) := by
  induction ls with
  | nil => trivial
  | cons row rest ih =>
      obtain ⟨hwhole, hparted, hsettled⟩ := h
      have hrow := hls row List.mem_cons_self
      have hrest := fun r hr => hls r (List.mem_cons_of_mem row hr)
      refine ⟨?_, hparted.finish hrow hrest, ih hrest hsettled⟩
      rcases hrow with rfl | hrow
      · exact hwhole
      · rw [finishRow_text hrow.ne_nil]
        exact hwhole.finishLine

/-! ### Formatting twice -/

/-- A formatted text is laid out as the text it was made from. -/
theorem formatChars_formatChars (m n : Nat) (source : List Char) :
    formatChars n (formatChars m source) = formatChars n source := by
  have htidy := tidy_rows (breakAtBraces source)
  have hrows := rows_unlines_indent htidy.finish m
  have hsettled : Settled ((rows (breakAtBraces source)).map finishRow) :=
    (settled_rows_breakAtBraces source).finish htidy.row
  have hbroken := rows_breakAtBraces (hrows.symm ▸ hsettled)
  rw [formatChars_eq_indent m, formatChars_eq_indent n, hbroken, hrows, htidy.finish_finish,
    formatChars_eq_indent n]

/-- Formatting a formatted text anew is formatting the text it was made from, whatever indentation was
asked for.  An indentation that is not positive is one of four columns. -/
theorem format_format (source : String) (m n : Int) :
    format (format source m) n = format source n ∧
      format source n = format source (if n ≤ 0 then 4 else n) := by
  constructor
  · simp only [format, String.toList_ofList, formatChars_formatChars]
  · have htab : tabSize n = tabSize (if n ≤ 0 then 4 else n) := by
      by_cases h : n ≤ 0
      · simp [tabSize, h, defaultTabSize]
      · simp [tabSize, h]
    rw [format, htab, format]

end ScriptLens.Layout
