import ScriptLens.Proofs.Layout.Stretch

/-!
# Canonical spacing behind a semicolon

A line with canonical spacing keeps it when a semicolon is put behind it.  All that the rules have to say is how far
the semicolon stands from the line, and that is told by the last character: a comma, a colon and an equals sign have a
space behind them.

Main statement: `normalize_terminated`.
-/

namespace ScriptLens.Layout

open Text

/-! ### Comparisons and the last character -/

/-- Where a walk stands outside of comparisons is told by the visible character before. -/
def LineState.Marked (s : LineState) : Prop :=
  (s.mark = .within 0 → s.before = some '=') ∧ (s.mark = .apart → s.before ≠ some '=')

theorem Aligned.marked_advance {s : LineState} {g : Gap} {c : Char} {v : isBlank c = false} {rest : Spaced}
    (h : Aligned s (.next g c v rest)) : (lineSpacer.advance s g c rest).Marked := by
  rw [lineSpacer_advance]
  by_cases hs : s.Ready
  · rw [comparison_advance hs]
    by_cases hpair : c ∈ comparisonHeads ∧ rest.text.head? = some '='
    · -- the equals sign of the comparison is still to come
      rw [leadingMark?_pair hpair.1 hpair.2]
      simp [LineState.Marked]
    · rw [leadingMark?_single hpair]
      by_cases hc : c = '=' <;> simp [LineState.Marked, hc]
  · obtain ⟨n, hn⟩ : ∃ n, s.mark = .within (n + 1) := by
      simpa [LineState.Ready] using hs
    obtain ⟨rfl, hhead⟩ := h n hn
    obtain ⟨_, _, _, hnext, -⟩ := (head?_text_eq_iff _).mp hhead
    obtain ⟨-, rfl, -⟩ := Spaced.next.inj hnext
    rw [hn]
    simp [LineState.Marked, comparisonSpacer, markSpacer]

/-- Behind a text a walk is outside of comparisons, and right behind one if the text ends with an equals sign. -/
theorem Aligned.marked_final {s : LineState} {t : Spaced} (h : Aligned s t) (hs : s.Marked) :
    (t.final s).Ready ∧ (t.final s).Marked := by
  induction t generalizing s with
  | last g =>
      refine ⟨h.ready fun hhead => ?_, hs⟩
      exact absurd (g.blank '=' (List.mem_of_head? hhead)) (by decide)
  | next g c v rest ih => exact ih h.advance h.marked_advance

/-! ### The semicolon -/

/-- The characters that have a space behind them. -/
def spacedMarks : List Char := [',', ':', '=']

/-- A semicolon as it stands behind a line with canonical spacing. -/
def terminator (line : List Char) : List Char :=
  if line.getLast?.any spacedMarks.contains then [' ', ';'] else [';']

/-- The gap before a semicolon is told by the visible character before. -/
theorem between_terminator {s : LineState} (hready : s.Ready) (hmarked : s.Marked) :
    (lineSpacer.between s .none ';' (.last .none)).chars ++ [';'] =
      if s.before.any spacedMarks.contains then [' ', ';'] else [';'] := by
  have hmark : leadingMark? comparisonMarks [';'] = none := by decide
  obtain ⟨m, before, stem⟩ := s
  have hcompared : (comparisonSpacer.between m .none ';' (.last .none)).chars =
      if before = some '=' then [' '] else [] := by
    cases m with
    | apart => simp [comparisonSpacer, markSpacer, hmark, hmarked.2 rfl]
    | within n =>
        cases n with
        | zero =>
            have hequals : before = some '=' := hmarked.1 rfl
            simp [comparisonSpacer, markSpacer, hmark, hequals]
        | succ n => exact absurd rfl (hready n)
  cases before with
  | none => simpa [lineSpacer, wordSpacer, LineState.widen, separatorGap] using hcompared
  | some d =>
      by_cases hcolon : d = ':'
      · simp [lineSpacer, wordSpacer, LineState.widen, separatorGap, opensBlock, spacedMarks, hcolon]
      · by_cases hcomma : d = ','
        · simp [lineSpacer, wordSpacer, LineState.widen, separatorGap, opensBlock, spacedMarks, hcomma]
        · by_cases hequals : d = '=' <;>
            simp [lineSpacer, wordSpacer, LineState.widen, separatorGap, opensBlock, spacedMarks, hcolon,
              hcomma, hequals, hcompared]

theorem normalize_trim (line : List Char) : normalize (trim line) = normalize line := by
  rw [← Spaced.text_ofChars line, Spaced.trim_text, normalize_text, normalize_text, trim_respace_trim]

/-- A semicolon behind a line with canonical spacing leaves the line as it is. -/
theorem normalize_append_semicolon (line : List Char) :
    normalize (normalize line ++ [';']) = normalize line ++ terminator (normalize line) := by
  rw [← normalize_trim line]
  cases hline : trim line with
  | nil => rfl
  | cons c cs =>
      have v : isBlank c = false := by
        have hhead : (visible line).head? = some c := by rw [← head?_trim, hline]; rfl
        exact isBlank_of_mem_visible (List.mem_of_head? hhead)
      obtain ⟨R, hnormal, hsemicolon⟩ := normalize_row_semicolon v (.ofChars cs)
      rw [Spaced.text_ofChars] at hnormal
      have hfirst : Aligned (.first c R) R :=
        (ready_start.aligned (.next .none c v R)).advance
      obtain ⟨hready, hmarked⟩ := hfirst.marked_final (ready_start.aligned (.next .none c v R)).marked_advance
      have hlast : (c :: R.text).getLast? = (R.final (.first c R)).before := by
        have hend : (c :: R.text).getLast? = (visible (c :: R.text)).getLast? := by
          rw [← getLast?_trim, ← hnormal, trim_normalize]
        obtain ⟨d, hd⟩ : ∃ d, (c :: R.text).getLast? = some d := ⟨_, List.getLast?_cons⟩
        have vd : isBlank d = false := isBlank_of_mem_visible (List.mem_of_getLast? (hend ▸ hd))
        have hwalk : (Spaced.next .none c v R).lastOf none = some d :=
          Spaced.lastOf_of_getLast? (by simpa using hd) vd none
        rw [Spaced.before_final, hd]
        exact hwalk.symm
      rw [hnormal, hsemicolon, between_terminator hready hmarked, terminator, hlast]

/-- Canonical spacing is kept, also with a semicolon behind the line, which then ends with it.  The visible characters
stay as they are, and the semicolon stands right behind the last of them, or one space behind a comma, a colon or an
equals sign. -/
theorem normalize_terminated (line : List Char) :
    normalize (normalize line) = normalize line ∧ visible (normalize line) = visible line ∧
    ∃ u, u = normalize (normalize line ++ [';']) ∧ normalize u = u ∧ u.getLast? = some ';' ∧
      u = normalize line ++ terminator (normalize line) := by
  refine ⟨normalize_normalize line, visible_normalize line, _, rfl, normalize_normalize _, ?_,
    normalize_append_semicolon line⟩
  rw [normalize_append_semicolon, List.getLast?_append]
  unfold terminator
  split <;> rfl

end ScriptLens.Layout
