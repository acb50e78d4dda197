import ScriptLens.Proofs.Located
import ScriptLens.Proofs.Text.Lines
import ScriptLens.Proofs.Token.Fronts

/-!
# Lines and what a display shows of them

Lines end at line feeds only, but a display starts a new line at other characters as well.  So a line may fill several
lines of the display, and those below it then have greater numbers there.  The two ways to count agree up to a line
exactly if a display breaks neither the line nor one above it.

Main statements: `LineCut.visualLines_eq` and `LineCut.shown_iff`.
-/

namespace ScriptLens.Text

/-! ### Lines that a display does not break -/

/-- A line without the carriage return at its end. -/
def bare (line : List Char) : List Char :=
  if line.getLast? = some '\r' then line.dropLast else line

/-- A display starts no new line within a line.  The carriage return at the end of a line belongs to its end. -/
def Unbroken (line : List Char) : Prop :=
  ∀ c ∈ bare line, isLineBreak c = false

/-- No line of a text is broken by a display. -/
def Straight (text : List Char) : Prop :=
  ∀ line ∈ lines text, Unbroken line

theorem bare_concat (line : List Char) : bare (line ++ ['\r']) = line := by
  rw [bare, List.getLast?_concat, if_pos rfl, List.dropLast_concat]

theorem bare_of_getLast? {line : List Char} (h : line.getLast? ≠ some '\r') : bare line = line :=
  if_neg h

/-- A line is its bare form, or has a carriage return behind it. -/
theorem bare_cases (line : List Char) : line = bare line ∨ line = bare line ++ ['\r'] := by
  rcases List.eq_nil_or_concat line with rfl | ⟨front, c, rfl⟩
  · exact Or.inl rfl
  · by_cases hc : c = '\r'
    · subst hc
      rw [List.concat_eq_append, bare_concat]
      exact Or.inr rfl
    · left
      rw [List.concat_eq_append, bare_of_getLast?]
      rw [List.getLast?_concat]
      exact fun h => hc (Option.some.inj h)

/-- What stands before the end of a line stays as it is. -/
theorem bare_append (start : List Char) {ending : List Char} (h : ending ≠ []) :
    bare (start ++ ending) = start ++ bare ending := by
  have hlast : (start ++ ending).getLast? = ending.getLast? := by
    rw [List.getLast?_append, List.getLast?_eq_some_getLast h, Option.some_or]
  unfold bare
  rw [hlast, List.dropLast_append_of_ne_nil h]
  split <;> rfl

theorem bare_isPrefix (line : List Char) : bare line <+: line := by
  rcases bare_cases line with hline | hline
  · exact ⟨[], (List.append_nil _).trans hline.symm⟩
  · exact ⟨['\r'], hline.symm⟩

/-- From a place on, a bare line has what the line has there. -/
theorem drop_bare_isPrefix (start ending : List Char) : (bare (start ++ ending)).drop start.length <+: ending := by
  cases ending with
  | nil =>
      have hshort := (bare_isPrefix (start ++ [])).length_le
      rw [List.append_nil] at hshort ⊢
      exact List.prefix_nil.mpr (List.drop_eq_nil_of_le hshort)
  | cons c cs =>
      rw [bare_append start (by simp), List.drop_left]
      exact bare_isPrefix _

/-- A character that is no carriage return is in the bare line. -/
theorem drop_bare_ne_nil (start : List Char) {c : Char} (h : c ≠ '\r') (cs : List Char) :
    (bare (start ++ c :: cs)).drop start.length ≠ [] := by
  rw [bare_append start (by simp), List.drop_left]
  intro hnil
  rcases bare_cases (c :: cs) with hline | hline
  · rw [hnil] at hline
    cases hline
  · rw [hnil] at hline
    exact h (List.cons.inj hline).1

theorem unbroken_nil : Unbroken [] := by
  intro c hc
  cases hc

/-- A line is not broken exactly if all of it comes before the first break, up to a carriage return. -/
theorem takeWhile_eq_bare_iff (line : List Char) :
    line.takeWhile (!isLineBreak ·) = bare line ↔ Unbroken line := by
  constructor
  · intro h c hc
    rw [← h] at hc
    simpa using List.all_eq_true.mp List.all_takeWhile c hc
  · intro h
    have hrun : ∀ c ∈ bare line, (!isLineBreak c) = true := fun c hc => by simp [h c hc]
    rcases bare_cases line with hline | hline
    · have hwhole : (bare line ++ []).takeWhile (!isLineBreak ·) = bare line :=
        Token.takeWhile_append_stop hrun (by simp)
      rw [List.append_nil] at hwhole
      rwa [← hline] at hwhole ⊢
    · have hcut : (bare line ++ ['\r']).takeWhile (!isLineBreak ·) = bare line :=
        Token.takeWhile_append_stop hrun (by simp [isLineBreak])
      rwa [← hline] at hcut

/-! ### Lines of a display -/

/-- A line break ends a line of the display. -/
theorem visualLines_break {c : Char} {cs : List Char} (h : isLineBreak c = true)
    (hpair : c = '\r' → cs.head? ≠ some '\n') : visualLines (c :: cs) = [] :: visualLines cs := by
  rw [visualLines.eq_def]
  split
  · rename_i hcut
    cases hcut
  · rename_i rest hcut
    obtain ⟨rfl, rfl⟩ := List.cons.inj hcut
    exact absurd rfl (hpair rfl)
  · rename_i d ds _ hcut
    obtain ⟨rfl, rfl⟩ := List.cons.inj hcut
    rw [if_pos h]

/-- A break at the start of a text leaves the first line of the display empty. -/
theorem exists_visualLines_break {c : Char} (h : isLineBreak c = true) (cs : List Char) :
    ∃ rest, visualLines (c :: cs) = [] :: rest := by
  by_cases hpair : c = '\r' ∧ cs.head? = some '\n'
  · obtain ⟨rfl, hfeed⟩ := hpair
    obtain ⟨rest, rfl⟩ := List.head?_eq_some_iff.mp hfeed
    exact ⟨_, rfl⟩
  · exact ⟨_, visualLines_break h fun hc hfeed => hpair ⟨hc, hfeed⟩⟩

theorem visualLines_cons {c : Char} (h : isLineBreak c = false) {cs first : List Char}
    {rest : List (List Char)} (hcs : visualLines cs = first :: rest) :
    visualLines (c :: cs) = (c :: first) :: rest := by
  rw [visualLines.eq_def]
  split
  · rename_i hcut
    cases hcut
  · rename_i hcut
    obtain ⟨rfl, -⟩ := List.cons.inj hcut
    cases h
  · rename_i d ds _ hcut
    obtain ⟨rfl, rfl⟩ := List.cons.inj hcut
    rw [if_neg (by simp [h]), hcs]

/-- Text without a break goes to the front of the first line of the display. -/
theorem visualLines_append {piece : List Char} (h : ∀ c ∈ piece, isLineBreak c = false) {text first : List Char}
    {rest : List (List Char)} (htext : visualLines text = first :: rest) :
    visualLines (piece ++ text) = (piece ++ first) :: rest := by
  induction piece with
  | nil => exact htext
  | cons c cs ih =>
      exact visualLines_cons (h c List.mem_cons_self) (ih fun d hd => h d (List.mem_cons_of_mem c hd))

theorem visualLines_of_unbroken {piece : List Char} (h : ∀ c ∈ piece, isLineBreak c = false) (hne : piece ≠ []) :
    visualLines piece = [piece] := by
  rcases List.eq_nil_or_concat piece with rfl | ⟨front, c, rfl⟩
  · exact absurd rfl hne
  · rw [List.concat_eq_append] at h ⊢
    have hc : isLineBreak c = false := h c (by simp)
    have hlast : visualLines [c] = [[c]] := by
      rw [visualLines.eq_def]
      simp [hc, visualLines]
    exact visualLines_append (fun d hd => h d (List.mem_append_left _ hd)) hlast

theorem visualLines_ne_nil {text : List Char} (h : text ≠ []) : visualLines text ≠ [] := by
  fun_cases visualLines text <;> simp_all

/-- Above and below a line feed, the lines of the display are those of either part. -/
theorem visualLines_append_feed (front text : List Char) :
    visualLines (front ++ '\n' :: text) = visualLines (front ++ ['\n']) ++ visualLines text := by
  have hfeed : ∀ text, visualLines ('\n' :: text) = [] :: visualLines text := fun text =>
    visualLines_break rfl fun h => absurd h (by decide)
  -- a character that is no break goes to the front of the first line on both sides
  have hplain : ∀ {c : Char} {cs : List Char}, isLineBreak c = false →
      visualLines (cs ++ '\n' :: text) = visualLines (cs ++ ['\n']) ++ visualLines text →
      visualLines (c :: (cs ++ '\n' :: text)) = visualLines (c :: (cs ++ ['\n'])) ++ visualLines text := by
    intro c cs hc ih
    have hsome : visualLines (cs ++ ['\n']) ≠ [] := visualLines_ne_nil (by simp)
    obtain ⟨first, rest, hfirst⟩ := List.exists_cons_of_ne_nil hsome
    rw [hfirst, List.cons_append] at ih
    rw [visualLines_cons hc ih, visualLines_cons hc hfirst, List.cons_append]
  fun_induction visualLines front with
  | case1 =>
      rw [List.nil_append, List.nil_append, hfeed, hfeed]
      rfl
  | case2 cs ih => exact congrArg ([] :: ·) ih
  | case3 c cs hpair hbreak ih =>
      cases cs with
      | nil =>
          by_cases hc : c = '\r'
          · subst hc
            rfl
          · rw [List.singleton_append, List.singleton_append, visualLines_break hbreak (absurd · hc),
              visualLines_break hbreak (absurd · hc), hfeed, hfeed]
            rfl
      | cons d ds =>
          have hbehind : ∀ rest, visualLines (c :: (d :: ds ++ rest)) = [] :: visualLines (d :: ds ++ rest) := by
            intro rest
            refine visualLines_break hbreak fun hc hd => ?_
            obtain rfl : d = '\n' := Option.some.inj hd
            exact hpair ds hc rfl
          exact (hbehind _).trans ((congrArg ([] :: ·) ih).trans (congrArg (· ++ _) (hbehind _).symm))
  | case4 c cs hpair hbreak hnone ih => exact hplain (Bool.eq_false_iff.mpr hbreak) ih
  | case5 c cs hpair hbreak first rest hsome ih => exact hplain (Bool.eq_false_iff.mpr hbreak) ih

/-! ### How many lines a display shows -/

theorem visualLines_bare_feed {line : List Char} (h : Unbroken line) :
    visualLines (line ++ ['\n']) = [bare line] := by
  have hshown : ∀ ending, visualLines ending = [[]] → visualLines (bare line ++ ending) = [bare line] := by
    intro ending hending
    rw [visualLines_append h hending, List.append_nil]
  rcases bare_cases line with hline | hline
  · calc visualLines (line ++ ['\n'])
        = visualLines (bare line ++ ['\n']) := congrArg (fun l => visualLines (l ++ ['\n'])) hline
      _ = [bare line] := hshown _ rfl
  · calc visualLines (line ++ ['\n'])
        = visualLines (bare line ++ ['\r'] ++ ['\n']) := congrArg (fun l => visualLines (l ++ ['\n'])) hline
      _ = visualLines (bare line ++ ['\r', '\n']) := by rw [List.append_assoc, List.singleton_append]
      _ = [bare line] := hshown _ rfl

/-- A break within a line starts a second line, unless it is the carriage return at the end of the line. -/
theorem one_lt_length_visualLines {run cs : List Char} {c : Char} (hrun : ∀ d ∈ run, isLineBreak d = false)
    (hbreak : isLineBreak c = true) (hfeed : '\n' ∉ cs) (hend : ¬(c = '\r' ∧ cs = [])) :
    1 < (visualLines (run ++ c :: cs ++ ['\n'])).length := by
  have hpair : c = '\r' → (cs ++ ['\n']).head? ≠ some '\n' := by
    intro hc hhead
    cases cs with
    | nil => exact hend ⟨hc, rfl⟩
    | cons d ds =>
        obtain rfl : d = '\n' := Option.some.inj hhead
        exact hfeed List.mem_cons_self
  have hmore : 0 < (visualLines (cs ++ ['\n'])).length := List.length_pos_iff.mpr (visualLines_ne_nil (by simp))
  rw [List.append_assoc, List.cons_append, visualLines_append hrun (visualLines_break hbreak hpair), List.length_cons]
  omega

/-- A display shows a line as one exactly if it does not break the line. -/
theorem length_visualLines_feed {line : List Char} (h : '\n' ∉ line) :
    1 ≤ (visualLines (line ++ ['\n'])).length ∧
      (1 = (visualLines (line ++ ['\n'])).length ↔ Unbroken line) := by
  refine ⟨List.length_pos_iff.mpr (visualLines_ne_nil (by simp)), fun hone => ?_, fun hline => ?_⟩
  · obtain ⟨run, rest, rfl, hrun, hstop⟩ := Token.exists_run (!isLineBreak ·) line
    rw [← takeWhile_eq_bare_iff, Token.takeWhile_append_stop hrun hstop]
    cases rest with
    | nil =>
        rcases bare_cases (run ++ []) with hline | hline
        · rw [← hline, List.append_nil]
        · -- a carriage return is a break
          have hmem : '\r' ∈ run := by
            rw [List.append_nil] at hline
            rw [hline]
            simp
          cases hrun '\r' hmem
    | cons c cs =>
        have hplain : ∀ d ∈ run, isLineBreak d = false := fun d hd => by simpa using hrun d hd
        have hbreak : isLineBreak c = true := by simpa using hstop c rfl
        have hfeed : '\n' ∉ cs := fun hmem => h (by simp [hmem])
        by_cases hend : c = '\r' ∧ cs = []
        · obtain ⟨rfl, rfl⟩ := hend
          rw [bare_concat]
        · have hmore := one_lt_length_visualLines hplain hbreak hfeed hend
          omega
  · rw [visualLines_bare_feed hline]
    rfl

theorem straight_of_not_mem {line : List Char} (h : '\n' ∉ line) : Straight line ↔ Unbroken line := by
  simp [Straight, lines_of_not_mem h]

theorem straight_feed {front line : List Char} (h : '\n' ∉ line) :
    Straight (front ++ '\n' :: line) ↔ Straight front ∧ Unbroken line := by
  unfold Straight
  rw [lines_feed, lines_of_not_mem h, List.forall_mem_append, List.forall_mem_singleton]

/-- A display shows at least as many lines as there are, and as many only if it breaks none of them. -/
theorem length_visualLines (front : List Char) :
    front.count '\n' + 1 ≤ (visualLines (front ++ ['\n'])).length ∧
      (front.count '\n' + 1 = (visualLines (front ++ ['\n'])).length ↔ Straight front) := by
  induction hn : front.length using Nat.strongRecOn generalizing front with
  | ind n ih =>
      subst hn
      rcases exists_last_line front with hnone | ⟨above, last, rfl, hlast⟩
      · rw [List.count_eq_zero.mpr hnone, straight_of_not_mem hnone, Nat.zero_add]
        exact length_visualLines_feed hnone
      · have hshorter : above.length < (above ++ '\n' :: last).length := by
          rw [List.length_append, List.length_cons]
          omega
        obtain ⟨hle, heq⟩ := ih _ hshorter above rfl
        obtain ⟨hle', heq'⟩ := length_visualLines_feed hlast
        have hcount : (above ++ '\n' :: last).count '\n' = above.count '\n' + 1 := by
          rw [List.count_append, List.count_cons_self, List.count_eq_zero.mpr hlast]
        have hlength : (visualLines (above ++ '\n' :: last ++ ['\n'])).length =
            (visualLines (above ++ ['\n'])).length + (visualLines (last ++ ['\n'])).length := by
          rw [List.append_assoc, List.cons_append, visualLines_append_feed, List.length_append]
        rw [hcount, hlength, straight_feed hlast, ← heq, ← heq']
        omega

/-! ### A line in its text -/

/-- A line of a text, with what stands above it and what stands below it. -/
structure LineCut (text above line below : List Char) : Prop where
  cut : text = above ++ (line ++ below)
  above : above = [] ∨ ∃ front, above = front ++ ['\n']
  line : '\n' ∉ line
  below : below = [] ∨ ∃ rest, below = '\n' :: rest

/-- Every place of a text stands on a line of it. -/
theorem exists_lineCut (before behind : List Char) :
    ∃ above start ending below, LineCut (before ++ behind) above (start ++ ending) below ∧
      before = above ++ start ∧ behind = ending ++ below ∧
      above.count '\n' = before.count '\n' ∧ start.length = lastWidth before := by
  obtain ⟨above, start, habove, hcut, hstart, hcount, hwidth⟩ : ∃ above start : List Char,
      (above = [] ∨ ∃ front, above = front ++ ['\n']) ∧ before = above ++ start ∧ '\n' ∉ start ∧
        above.count '\n' = before.count '\n' ∧ start.length = lastWidth before := by
    rcases exists_last_line before with hnone | ⟨front, last, rfl, hlast⟩
    · refine ⟨[], before, Or.inl rfl, rfl, hnone, ?_, (lastWidth_of_not_mem hnone).symm⟩
      rw [List.count_eq_zero.mpr hnone, List.count_nil]
    · refine ⟨front ++ ['\n'], last, Or.inr ⟨front, rfl⟩, by simp, hlast, ?_, (lastWidth_feed front hlast).symm⟩
      rw [List.count_append, List.count_append, List.count_cons_self, List.count_cons_self, List.count_nil,
        List.count_eq_zero.mpr hlast]
  obtain ⟨ending, below, hbehind, hending, hbelow⟩ : ∃ ending below : List Char,
      behind = ending ++ below ∧ '\n' ∉ ending ∧ (below = [] ∨ ∃ rest, below = '\n' :: rest) := by
    by_cases hfeed : '\n' ∈ behind
    · obtain ⟨ending, rest, rfl, hnone⟩ := List.eq_append_cons_of_mem hfeed
      exact ⟨ending, '\n' :: rest, rfl, hnone, Or.inr ⟨rest, rfl⟩⟩
    · exact ⟨behind, [], by simp, hfeed, Or.inl rfl⟩
  refine ⟨above, start, ending, below, ⟨?_, habove, ?_, hbelow⟩, hcut, hbehind, hcount, hwidth⟩
  · rw [hcut, hbehind]
    simp
  · rw [List.mem_append]
    exact fun hfeed => hfeed.elim hstart hending

namespace LineCut

variable {text above line below : List Char}

/-- A line has the number of the line feeds above it. -/
theorem getElem?_lines (h : LineCut text above line below) :
    (lines text)[above.count '\n']? = some line := by
  have hfirst : ∃ rest, lines (line ++ below) = line :: rest := by
    rcases h.below with rfl | ⟨rest, rfl⟩
    · exact ⟨[], by rw [List.append_nil, lines_of_not_mem h.line]⟩
    · exact ⟨_, lines_append_feed h.line rest⟩
  obtain ⟨rest, hlines⟩ := hfirst
  rcases h.above with habove | ⟨front, habove⟩
  · rw [h.cut, habove, List.nil_append, hlines]
    rfl
  · have hcount : above.count '\n' = (lines front).length := by
      rw [habove, length_lines, List.count_append]
      rfl
    rw [h.cut, hcount, habove, List.append_assoc, List.singleton_append, lines_feed, hlines,
      List.getElem?_append_right (Nat.le_refl _), Nat.sub_self]
    rfl

/-- With nothing below it, a line is the last one. -/
theorem getLast?_lines (h : LineCut text above line []) : (lines text).getLast? = some line := by
  rw [h.cut, List.append_nil]
  rcases h.above with habove | ⟨front, habove⟩
  · rw [habove, List.nil_append, lines_of_not_mem h.line]
    rfl
  · rw [habove, List.append_assoc, List.singleton_append, lines_feed, lines_of_not_mem h.line, List.getLast?_concat]

/-- The lines of the display down to a line, and those from it on. -/
theorem visualLines_eq (h : LineCut text above line below) :
    visualLines text = visualLines above ++ visualLines (line ++ below) := by
  rcases h.above with habove | ⟨front, habove⟩
  · rw [h.cut, habove]
    rfl
  · rw [h.cut, habove, List.append_assoc, List.singleton_append, visualLines_append_feed]

theorem straight_iff (h : LineCut text above line below) :
    Straight (above ++ line) ↔ Straight above ∧ Unbroken line := by
  have hnone : '\n' ∉ ([] : List Char) := List.not_mem_nil
  rcases h.above with habove | ⟨front, habove⟩
  · rw [habove, List.nil_append, straight_of_not_mem h.line, straight_of_not_mem hnone]
    exact (and_iff_right unbroken_nil).symm
  · rw [habove, List.append_assoc, List.singleton_append, straight_feed h.line, straight_feed hnone]
    exact and_congr_left' (and_iff_left unbroken_nil).symm

/-- A text of which a display breaks no line. -/
theorem straight (h : LineCut text above line below) (htext : Straight text) : Straight (above ++ line) := by
  intro l hl
  apply htext
  rw [h.cut, ← List.append_assoc]
  rcases h.below with rfl | ⟨rest, rfl⟩
  · rwa [List.append_nil]
  · rw [lines_feed]
    exact List.mem_append_left _ hl

/-- A line has at least as many lines of the display above it as it has lines above it. -/
theorem count_above (h : LineCut text above line below) :
    above.count '\n' ≤ (visualLines above).length ∧
      (above.count '\n' = (visualLines above).length ↔ Straight above) := by
  have hnone : '\n' ∉ ([] : List Char) := List.not_mem_nil
  rcases h.above with habove | ⟨front, habove⟩
  · rw [habove, straight_of_not_mem hnone]
    exact ⟨Nat.le_refl _, fun _ => unbroken_nil, fun _ => rfl⟩
  · have hcount : above.count '\n' = front.count '\n' + 1 := by
      rw [habove, List.count_append]
      rfl
    rw [hcount, habove, straight_feed hnone, and_iff_left unbroken_nil]
    exact length_visualLines front

/-- The first line of the display from a line on ends where the display first breaks the line. -/
theorem head?_visualLines (h : LineCut text above line below) (hne : line ++ below ≠ []) :
    (visualLines (line ++ below)).head? = some (line.takeWhile (!isLineBreak ·)) := by
  obtain ⟨run, rest, hline, hrun, hstop⟩ := Token.exists_run (!isLineBreak ·) line
  have hplain : ∀ c ∈ run, isLineBreak c = false := fun c hc => by simpa using hrun c hc
  rw [hline, Token.takeWhile_append_stop hrun hstop]
  have hbreak : ∀ {c : Char} {cs : List Char}, isLineBreak c = true →
      (visualLines (run ++ c :: cs)).head? = some run := by
    intro c cs hc
    obtain ⟨more, hmore⟩ := exists_visualLines_break hc cs
    rw [visualLines_append hplain hmore, List.append_nil]
    rfl
  cases rest with
  | nil =>
      rw [List.append_nil] at hline ⊢
      rcases h.below with rfl | ⟨rest, rfl⟩
      · rw [List.append_nil] at hne ⊢
        rw [visualLines_of_unbroken hplain (hline ▸ hne)]
        rfl
      · exact hbreak rfl
  | cons c cs =>
      rw [List.append_assoc, List.cons_append]
      exact hbreak (by simpa using hstop c rfl)

/-- The display has a line at its number, and as a whole, exactly if it breaks neither the line nor one above it. -/
theorem shown_iff (h : LineCut text above line below) (hne : line ++ below ≠ []) :
    above.count '\n' = (visualLines above).length ∧ (visualLines (line ++ below)).head? = some (bare line) ↔
      Straight (above ++ line) := by
  rw [h.count_above.2, h.head?_visualLines hne, Option.some.injEq, takeWhile_eq_bare_iff, h.straight_iff]

/-- Where a display breaks no line down to a line, it shows that line at its number.  It shows no empty line at the end
of the text. -/
theorem getElem?_visualLines (h : LineCut text above line below) (hstraight : Straight (above ++ line)) :
    (visualLines text)[above.count '\n']? = if line ++ below = [] then none else some (bare line) := by
  rw [h.visualLines_eq, h.count_above.2.mpr (h.straight_iff.mp hstraight).1,
    List.getElem?_append_right (Nat.le_refl _), Nat.sub_self]
  split
  · rename_i hempty
    rw [hempty]
    rfl
  · rename_i hne
    rw [← List.head?_eq_getElem?]
    exact ((h.shown_iff hne).mpr hstraight).2

end LineCut

end ScriptLens.Text

namespace ScriptLens

open Text

/-- A location of a text is on a line of it, with so many lines above and so many characters before it. -/
theorem Located.exists_lineCut {text : List Char} {loc : Location} (h : Located text loc) :
    ∃ above start ending below, LineCut text above (start ++ ending) below ∧
      loc.line = 1 + above.count '\n' ∧ loc.column = 1 + start.length ∧
      text.drop loc.offset.toNat = ending ++ below := by
  obtain ⟨before, behind, rfl, hoffset, hline, hcolumn⟩ := (located_iff _ _).mp h
  obtain ⟨above, start, ending, below, hcut, -, hbehind, hcount, hwidth⟩ := Text.exists_lineCut before behind
  refine ⟨above, start, ending, below, hcut, by rw [hline, hcount], by rw [hcolumn, hwidth], ?_⟩
  rw [hoffset, Int.toNat_natCast, List.drop_left, hbehind]

end ScriptLens
