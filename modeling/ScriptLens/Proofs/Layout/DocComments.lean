import ScriptLens.Proofs.Layout.Comments

/-!
# The documentation comments of a formatted text

Documentation lines right below each other are one comment.  In a text with no line left to break they are still
right below each other after formatting, with other blanks around and in them, and what stood below them with a
blank line between still does.

Main statement: `Behind.doc`.
-/

namespace ScriptLens.Token

open Text

/-! ### Documentation lines -/

/-- The documentation lines at the front of a text. -/
def docBlock (text : List Char) : List (List Char) :=
  (lines text).takeWhile fun line => (docText? line).isSome

/-- What the documentation lines at the front of a text say. -/
def docTexts (text : List Char) : List (List Char) :=
  ((docBlock text).filterMap docText?).map docLine

/-- The width of the documentation lines at the front of a text. -/
def docWidth (text : List Char) : Nat :=
  (unlines (docBlock text)).length

theorem scanDoc_eq (text : List Char) :
    scanDoc text = .token (.doc (String.ofList (unlines (docTexts text)))) (docWidth text) := rfl

/-- A blank that may stand before a documentation line. -/
def isIndent (c : Char) : Bool :=
  [' ', '\t', '\r'].contains c

theorem isBlank_of_isIndent {c : Char} (h : isIndent c = true) : isBlank c = true := by
  have hc : c = ' ' ∨ c = '\t' ∨ c = '\r' := by simpa [isIndent] using h
  rcases hc with rfl | rfl | rfl <;> decide

theorem isSpace_of_isIndent {c : Char} (h : isIndent c = true) : isSpace c = true := by
  have hc : c = ' ' ∨ c = '\t' ∨ c = '\r' := by simpa [isIndent] using h
  rcases hc with rfl | rfl | rfl <;> decide

theorem docText?_indent {k : List Char} (hk : ∀ d ∈ k, isIndent d = true) (line : List Char) :
    docText? (k ++ line) = docText? line := by
  have hdrop : (k ++ line).dropWhile (fun c => [' ', '\t', '\r'].contains c) =
      line.dropWhile fun c => [' ', '\t', '\r'].contains c :=
    List.dropWhile_append_of_pos hk
  rw [docText?, hdrop, docText?]

/-- A documentation line has its slashes right behind its indentation. -/
theorem exists_of_docText? {k : List Char} (hk : ∀ d ∈ k, isBlank d = true) {line text : List Char}
    (hline : ∀ d, line.head? = some d → isBlank d = false) (h : docText? (k ++ line) = some text) :
    (∀ d ∈ k, isIndent d = true) ∧ line = '/' :: '/' :: '/' :: text := by
  induction k with
  | nil =>
      refine ⟨by simp, ?_⟩
      have hdrop : line.dropWhile (fun c => [' ', '\t', '\r'].contains c) = line := by
        cases line with
        | nil => rfl
        | cons d ds =>
            have hd : isIndent d = false := by
              cases hindent : isIndent d with
              | false => rfl
              | true =>
                  have hblank := hline d rfl
                  rw [isBlank_of_isIndent hindent] at hblank
                  cases hblank
            exact List.dropWhile_cons_of_neg (by simpa [isIndent] using hd)
      rw [List.nil_append, docText?, hdrop] at h
      split at h
      · rw [Option.some.inj h]
      · cases h
  | cons d k ih =>
      cases hd : isIndent d with
      | true =>
          have hone : docText? ([d] ++ (k ++ line)) = docText? (k ++ line) :=
            docText?_indent (by simpa using hd) _
          obtain ⟨hrest, hslashes⟩ := ih (fun e he => hk e (List.mem_cons_of_mem d he)) (hone ▸ h)
          exact ⟨by simpa [hd] using hrest, hslashes⟩
      | false =>
          have hdrop : (d :: (k ++ line)).dropWhile (fun c => [' ', '\t', '\r'].contains c) =
              d :: (k ++ line) := List.dropWhile_cons_of_neg (by simpa [isIndent] using hd)
          rw [List.cons_append, docText?, hdrop] at h
          split at h
          · rename_i heq
            have hblank := hk d List.mem_cons_self
            rw [(List.cons.inj heq).1] at hblank
            exact absurd hblank (by decide)
          · cases h

theorem docText?_of_isBlank {k : List Char} (hk : ∀ d ∈ k, isBlank d = true) : docText? k = none := by
  cases h : docText? k with
  | none => rfl
  | some text =>
      have hslashes := (exists_of_docText? hk (fun d hd => by cases hd) ((List.append_nil k).symm ▸ h)).2
      cases hslashes

/-! ### Documentation blocks -/

theorem docBlock_line {line : List Char} (hfeed : '\n' ∉ line) (hdoc : (docText? line).isSome = true) :
    docBlock line = [line] := by
  rw [docBlock, lines_of_not_mem hfeed]
  simp [hdoc]

theorem docBlock_feed {line : List Char} (hfeed : '\n' ∉ line) (hdoc : (docText? line).isSome = true)
    (below : List Char) : docBlock (line ++ '\n' :: below) = line :: docBlock below := by
  rw [docBlock, lines_append_feed hfeed, List.takeWhile_cons, if_pos hdoc]
  rfl

/-- Indentation goes to the first line of a block. -/
theorem docBlock_indent {k : List Char} (hk : ∀ d ∈ k, isIndent d = true) {text : List Char}
    (h : docBlock text ≠ []) :
    ∃ line rest, docBlock text = line :: rest ∧ docBlock (k ++ text) = (k ++ line) :: rest := by
  have hfeed : '\n' ∉ k := fun hmem => absurd (hk _ hmem) (by decide)
  obtain ⟨first, rest, hlines, happend⟩ := lines_append hfeed text
  have hfirst : (docText? first).isSome = true := by
    cases hdoc : (docText? first).isSome with
    | true => rfl
    | false =>
        rw [docBlock, hlines, List.takeWhile_cons, hdoc] at h
        exact absurd rfl h
  refine ⟨first, rest.takeWhile fun line => (docText? line).isSome, ?_, ?_⟩
  · rw [docBlock, hlines, List.takeWhile_cons, if_pos hfirst]
  · rw [docBlock, happend, List.takeWhile_cons, docText?_indent hk, if_pos hfirst]

theorem docTexts_indent {k : List Char} (hk : ∀ d ∈ k, isIndent d = true) {text : List Char}
    (h : docBlock text ≠ []) : docTexts (k ++ text) = docTexts text := by
  obtain ⟨line, rest, htext, hindent⟩ := docBlock_indent hk h
  rw [docTexts, docTexts, htext, hindent, List.filterMap_cons, List.filterMap_cons,
    docText?_indent hk]

theorem docWidth_indent {k : List Char} (hk : ∀ d ∈ k, isIndent d = true) {text : List Char}
    (h : docBlock text ≠ []) : docWidth (k ++ text) = k.length + docWidth text := by
  obtain ⟨line, rest, htext, hindent⟩ := docBlock_indent hk h
  rw [docWidth, docWidth, htext, hindent]
  cases rest <;> simp

/-- Where a block starts behind blanks, they are its indentation. -/
theorem exists_of_docBlock {k : List Char} (hk : ∀ d ∈ k, isBlank d = true) {text : List Char}
    (htext : ∀ d, text.head? = some d → isBlank d = false) (h : docBlock (k ++ text) ≠ []) :
    (∀ d ∈ k, isIndent d = true) ∧ ∃ rest, text = '/' :: '/' :: '/' :: rest := by
  have hfirst : ∀ {line : List Char} {rest : List (List Char)}, lines (k ++ text) = line :: rest →
      ∃ said, docText? line = some said := by
    intro line rest hlines
    rw [docBlock, hlines, List.takeWhile_cons] at h
    split at h
    · rename_i hdoc
      exact Option.isSome_iff_exists.mp hdoc
    · exact absurd rfl h
  by_cases hfeed : '\n' ∈ k
  · -- the first line is blank
    obtain ⟨before, after, rfl, hbefore⟩ := List.eq_append_cons_of_mem hfeed
    obtain ⟨said, hsaid⟩ := hfirst (by
      rw [List.append_assoc, List.cons_append, lines_append_feed hbefore])
    rw [docText?_of_isBlank fun d hd => hk d (List.mem_append_left _ hd)] at hsaid
    cases hsaid
  · obtain ⟨line, below, hcut, hline, hbelow⟩ := exists_run (· ≠ '\n') text
    have hlinefeed : '\n' ∉ line := fun hmem => by simpa using hline _ hmem
    have hall : '\n' ∉ k ++ line := by simp [hfeed, hlinefeed]
    obtain ⟨first, rest, hempty, hlines⟩ := lines_append hall below
    have hnil : first = [] := by
      cases below with
      | nil => exact (List.cons.inj hempty).1.symm
      | cons d ds =>
          obtain rfl : d = '\n' := by simpa using hbelow d rfl
          have hsplit : lines ('\n' :: ds) = [] :: lines ds := lines_append_feed List.not_mem_nil ds
          rw [hsplit] at hempty
          exact (List.cons.inj hempty).1.symm
    obtain ⟨said, hsaid⟩ := hfirst (by rw [hcut, ← List.append_assoc, hlines])
    rw [hnil, List.append_nil] at hsaid
    have hhead : ∀ d, line.head? = some d → isBlank d = false := by
      intro d hd
      obtain ⟨ds, rfl⟩ := List.head?_eq_some_iff.mp hd
      exact htext d (by rw [hcut]; rfl)
    obtain ⟨hindent, rfl⟩ := exists_of_docText? hk hhead hsaid
    exact ⟨hindent, said ++ below, by rw [hcut]; rfl⟩

/-- Behind indentation, slashes start a block. -/
theorem docBlock_ne_nil {k : List Char} (hk : ∀ d ∈ k, isIndent d = true) (rest : List Char) :
    docBlock (k ++ '/' :: '/' :: '/' :: rest) ≠ [] := by
  have hfeed : '\n' ∉ k ++ ['/', '/', '/'] := by
    intro hmem
    rcases List.mem_append.mp hmem with hmem | hmem
    · exact absurd (hk _ hmem) (by decide)
    · exact absurd hmem (by decide)
  obtain ⟨first, more, -, hlines⟩ := lines_append hfeed rest
  have hsplit : k ++ '/' :: '/' :: '/' :: rest = k ++ ['/', '/', '/'] ++ rest := by simp
  have hdoc : docText? (k ++ ['/', '/', '/'] ++ first) = some first := by
    rw [List.append_assoc, docText?_indent hk]
    rfl
  rw [hsplit, docBlock, hlines, List.takeWhile_cons, hdoc]
  exact List.cons_ne_nil _ _

end ScriptLens.Token

namespace ScriptLens.Layout

open Text Token

variable {added : Nat → Prop} {cs out : List Char}

/-! ### A block of documentation lines -/

/-- Nothing goes on with a block of documentation lines. -/
def EndsBlock (text : List Char) : Prop :=
  text = [] ∨ ∃ below, text = '\n' :: below ∧ docBlock below = []

/-- Where something goes on with a block, its next line does. -/
theorem exists_of_not_endsBlock {text : List Char} (htext : ∀ d, text.head? = some d → d = '\n')
    (h : ¬ EndsBlock text) : ∃ below, text = '\n' :: below ∧ docBlock below ≠ [] := by
  cases text with
  | nil => exact absurd (Or.inl rfl) h
  | cons d below =>
      obtain rfl := htext d rfl
      exact ⟨below, rfl, fun hnil => h (Or.inr ⟨below, rfl, hnil⟩)⟩

theorem docBlock_of_endsBlock {line text : List Char} (hfeed : '\n' ∉ line)
    (hdoc : (docText? line).isSome = true) (h : EndsBlock text) : docBlock (line ++ text) = [line] := by
  rcases h with rfl | ⟨below, rfl, hbelow⟩
  · rw [List.append_nil, docBlock_line hfeed hdoc]
  · rw [docBlock_feed hfeed hdoc, hbelow]

theorem docWidth_of_endsBlock {line text : List Char} (hfeed : '\n' ∉ line)
    (hdoc : (docText? line).isSome = true) (h : EndsBlock text) :
    docWidth (line ++ text) = line.length := by
  rw [docWidth, docBlock_of_endsBlock hfeed hdoc h]
  simp

theorem docWidth_feed {line : List Char} (hfeed : '\n' ∉ line)
    (hdoc : (docText? line).isSome = true) {below : List Char} (h : docBlock below ≠ []) :
    docWidth (line ++ '\n' :: below) = line.length + 1 + docWidth below := by
  rw [docWidth, docBlock_feed hfeed hdoc, unlines_cons line h, List.length_append, List.length_cons,
    docWidth]
  omega

theorem docWidth_below {line k text : List Char} (hfeed : '\n' ∉ line)
    (hdoc : (docText? line).isSome = true) (hk : ∀ d ∈ k, isIndent d = true) (h : docBlock text ≠ []) :
    docWidth (line ++ '\n' :: (k ++ text)) = (line ++ '\n' :: k).length + docWidth text := by
  have hne : docBlock (k ++ text) ≠ [] := by
    obtain ⟨first, rest, -, hindent⟩ := docBlock_indent hk h
    rw [hindent]
    exact List.cons_ne_nil _ _
  rw [docWidth_feed hfeed hdoc hne, docWidth_indent hk h]
  simp
  omega

/-- A block ends where the lines below its first end. -/
theorem drop_docWidth_below {line k text : List Char} (hfeed : '\n' ∉ line)
    (hdoc : (docText? line).isSome = true) (hk : ∀ d ∈ k, isIndent d = true) (h : docBlock text ≠ []) :
    (line ++ '\n' :: (k ++ text)).drop (docWidth (line ++ '\n' :: (k ++ text))) =
      text.drop (docWidth text) := by
  have hsplit : line ++ '\n' :: (k ++ text) = (line ++ '\n' :: k) ++ text := by simp
  rw [docWidth_below hfeed hdoc hk h, hsplit, ← List.drop_drop, List.drop_left]

theorem docTexts_feed {line said : List Char} (hfeed : '\n' ∉ line) (hdoc : docText? line = some said)
    (below : List Char) : docTexts (line ++ '\n' :: below) = docLine said :: docTexts below := by
  rw [docTexts, docBlock_feed hfeed (by rw [hdoc]; rfl), List.filterMap_cons, hdoc]
  rfl

theorem docTexts_of_endsBlock {line said text : List Char} (hfeed : '\n' ∉ line)
    (hdoc : docText? line = some said) (h : EndsBlock text) :
    docTexts (line ++ text) = [docLine said] := by
  rw [docTexts, docBlock_of_endsBlock hfeed (by rw [hdoc]; rfl) h, List.filterMap_cons, hdoc]
  rfl

theorem length_visible_drop_le {n m : Nat} (h : n ≤ m) (text : List Char) :
    (visible (text.drop m)).length ≤ (visible (text.drop n)).length :=
  ((List.drop_sublist_drop_left text h).filter _).length_le

theorem length_le_docWidth {line text : List Char} (hfeed : '\n' ∉ line)
    (hdoc : (docText? line).isSome = true) (htext : ∀ d, text.head? = some d → d = '\n') :
    line.length ≤ docWidth (line ++ text) := by
  by_cases hends : EndsBlock text
  · rw [docWidth_of_endsBlock hfeed hdoc hends]
  · obtain ⟨below, rfl, hbelow⟩ := exists_of_not_endsBlock htext hends
    rw [docWidth_feed hfeed hdoc hbelow]
    omega

/-- A character that does not start the second part of a text starts the first. -/
theorem exists_cons_of_append {d : Char} {front rest ds : List Char} (h : front ++ rest = d :: ds)
    (hrest : rest.head? ≠ some d) : ∃ es, front = d :: es ∧ es ++ rest = ds := by
  cases front with
  | nil =>
      rw [List.nil_append] at h
      exact absurd (by rw [h]; rfl) hrest
  | cons e es =>
      obtain ⟨rfl, hes⟩ := List.cons.inj h
      exact ⟨es, rfl, hes⟩

/-- Whether a documentation line still says the same with canonical spacing. -/
def keepsDocLine (line : List Char) : Bool :=
  (docText? (normalize (trim line))).map docLine = (docText? line).map docLine

/-- Where no line is left to break behind the blanks at the end of a line, none is left behind the line. -/
theorem Spaced.respace_break_below {t : Spaced} {g : Gap} {before : Option Char}
    (h : (t.setLead (g.append t.lead)).respace breakSpacer before = t.setLead (g.append t.lead))
    (ht : ∀ d, t.text.head? = some d → d = '\n') : t.respace breakSpacer before = t := by
  cases t with
  | last k => rfl
  | next k c v rest =>
      obtain ⟨k', hk'⟩ := (feedsBefore_of_feed ht).1
      have hrest := respace_break_rest h
      have hgap : breakSpacer.between before k c rest = k := by
        cases before with
        | none => rfl
        | some b =>
            cases hbreaks : breaksLine b c with
            | false => simp [breakSpacer, pairSpacer, hbreaks]
            | true =>
                have hfeed : g.chars ++ k.chars = ['\n'] :=
                  congrArg Gap.chars (feed_of_breaksLine h hbreaks)
                rw [hk'] at hfeed
                have hnil : g.chars = [] ∧ k'.chars = [] := by
                  cases hg : g.chars with
                  | nil => simpa [hg] using hfeed
                  | cons d ds => simp [hg] at hfeed
                have hk : Gap.feed = k := Gap.eq_of_chars (by rw [hk', hnil.2]; rfl)
                simpa [breakSpacer, pairSpacer, hbreaks] using hk
      have hadvance : breakSpacer.advance before k c rest = some c := rfl
      rw [respace, hgap, hadvance, hrest]

/-- A line is cut behind its last visible character. -/
theorem exists_trim {c : Char} (hc : isBlank c = false) (line : List Char) :
    ∃ (u : List Char) (g : Gap), line = u ++ g.chars ∧ trim (c :: line) = c :: u ∧
      ∀ d, (c :: u).getLast? = some d → isBlank d = false := by
  have htrim : trim (c :: line) = c :: ((Spaced.ofChars line).setLast .none).text := by
    have htext := Spaced.trim_text (.next .none c hc (Spaced.ofChars line))
    rw [Spaced.text_next, Spaced.text_ofChars] at htext
    exact htext
  refine ⟨((Spaced.ofChars line).setLast .none).text, (Spaced.ofChars line).tail, ?_, htrim, fun d hd => ?_⟩
  · rw [← Spaced.text_eq_tail, Spaced.text_ofChars]
  · rw [← htrim, getLast?_trim] at hd
    exact isBlank_of_mem_visible (List.mem_of_getLast? hd)

/-- Slashes at the front of a text stand in its first part, if they are visible there. -/
theorem exists_of_visible_slashes {front rest said said' : List Char}
    (hvisible : visible front = '/' :: '/' :: said) (h : front ++ rest = '/' :: '/' :: said') :
    ∃ more, front = '/' :: '/' :: more := by
  rcases front with _ | ⟨a, _ | ⟨b, more⟩⟩
  · cases hvisible
  · have hle := List.length_filter_le (fun c => !isBlank c) [a]
    rw [← visible, hvisible] at hle
    simp at hle
  · obtain ⟨rfl, hrest⟩ := List.cons.inj h
    obtain ⟨rfl, -⟩ := List.cons.inj hrest
    exact ⟨more, rfl⟩

/-- Where a text has no line left to break, none is left between the last visible character of a line and what
stands below the line. -/
theorem Spaced.respace_break_behind {c : Char} {u v : List Char} {g : Gap}
    (hbraces : breakAtBraces (c :: (u ++ (g.chars ++ v))) = c :: (u ++ (g.chars ++ v)))
    (hend : ∀ d, (c :: u).getLast? = some d → isBlank d = false) (hv : ∀ d, v.head? = some d → d = '\n') :
    (Spaced.ofChars v).respace breakSpacer (c :: u).getLast? = .ofChars v := by
  obtain ⟨init, d, hd⟩ := (List.eq_nil_or_concat (c :: u)).resolve_left (List.cons_ne_nil _ _)
  have hlast : (c :: u).getLast? = some d := by simp [hd]
  have htext : ((Spaced.ofChars v).setLead (g.append (Spaced.ofChars v).lead)).text = g.chars ++ v := by
    have hlead := Spaced.text_eq_lead (Spaced.ofChars v)
    rw [Spaced.text_ofChars] at hlead
    rw [Spaced.text_setLead, Gap.append, List.append_assoc, ← hlead]
  refine Spaced.respace_break_below (g := g) ?_ (by rwa [Spaced.text_ofChars])
  rw [hlast]
  refine respace_of_breakAtBraces_cons (hend d hlast) (breakAtBraces_suffix hbraces ⟨init, ?_⟩)
  have hwhole : c :: (u ++ (g.chars ++ v)) = init.concat d ++ (g.chars ++ v) := by rw [← hd, List.cons_append]
  rw [htext, hwhole]
  simp

/-- A documentation line stands in the formatted text with canonical spacing, without the blanks behind it and
perhaps with a semicolon there. -/
theorem Behind.doc_line {line v : List Char} (h : Behind added '/' (line ++ v) out)
    (hbraces : breakAtBraces ('/' :: (line ++ v)) = '/' :: (line ++ v))
    (hslashes : ∃ said, line = '/' :: '/' :: said) (hfeed : '\n' ∉ line)
    (hv : ∀ d, v.head? = some d → d = '\n') :
    ∃ (said ending out' : List Char) (s : LineState),
      normalize (trim ('/' :: line)) = '/' :: '/' :: '/' :: said ∧ '\n' ∉ said ∧
      out = '/' :: '/' :: said ++ (ending ++ out') ∧ RowEnd (added (visible v).length) ending ∧
      Laid (fun m => added m ∧ m ≠ (visible v).length) s (.ofChars v) out' ∧ s.Ready ∧
      (Spaced.ofChars v).respace breakSpacer s.before = .ofChars v := by
  have hslash : isBlank '/' = false := by decide
  obtain ⟨u, g, hline, htrim, hend⟩ := exists_trim hslash line
  have hhead := head?_ne_equals g hv
  have hgfeed : '\n' ∉ g.chars := fun hmem => hfeed (by rw [hline]; exact List.mem_append_right _ hmem)
  have hufeed : '\n' ∉ u := fun hmem => hfeed (by rw [hline]; exact List.mem_append_left _ hmem)
  have hcut : line ++ v = u ++ (g.chars ++ v) := by rw [hline, List.append_assoc]
  obtain ⟨u', t, s, out', hnormal, ht, rfl, hlaid, haligned, hbefore, -⟩ := h.stretch hslash (by decide)
    (by decide) hcut hufeed hbraces
    (fun d hd => hend d (by rw [List.getLast?_cons, hd]; rfl)) fun _ _ _ => hhead
  obtain ⟨ending, out'', rfl, hending, -, hrest⟩ := hlaid.line_end ht hgfeed hv
  -- nothing comes between the slashes
  obtain ⟨said', rfl⟩ : ∃ said, u' = '/' :: '/' :: said := by
    obtain ⟨said, rfl⟩ := hslashes
    obtain ⟨-, -, out₂, -, hout, -⟩ := h.plain (by decide) (u := ['/', '/']) rfl (List.all_eq_true.mp (by decide))
    have hsame := visible_normalize ('/' :: u)
    rw [hnormal, visible_cons hslash, visible_cons hslash] at hsame
    have hboth := congrArg visible hline
    rw [visible_append, g.visible_chars, List.append_nil, visible_cons hslash, visible_cons hslash] at hboth
    exact exists_of_visible_slashes ((List.cons.inj hsame).2.trans hboth.symm) hout
  have hlast : s.before = ('/' :: u).getLast? := by
    rw [hbefore, List.getLast?_cons]
    cases u.getLast? <;> rfl
  refine ⟨said', ending, out'', s, htrim ▸ hnormal, fun hmem => ?_, by simp, hending, hrest,
    haligned.ready (by rw [ht]; exact hhead), ?_⟩
  · have hmem : '\n' ∈ normalize ('/' :: u) := by simp [hnormal, hmem]
    rcases mem_normalize hmem with hspace | hmem
    · exact absurd hspace (by decide)
    · exact hufeed (by simpa using hmem)
  · rw [hcut] at hbraces
    rw [hlast]
    exact Spaced.respace_break_behind hbraces hend hv

/-- Slashes that were laid out stood in the source. -/
theorem Behind.slashes {said : List Char} (h : Behind added '/' cs ('/' :: '/' :: said)) :
    ∃ rest, cs = '/' :: '/' :: rest := by
  have v : isBlank '/' = false := by decide
  have hhead : ∀ {s : LineState} {t : Spaced} {ds : List Char}, Laid added s t ('/' :: ds) →
      t.text.head? = some '/' := by
    intro s t ds hlaid
    exact (hlaid.loose rfl).resolve_right (by decide)
  obtain ⟨t, s, rfl, hlaid, hbegun⟩ := h
  obtain ⟨ds, hds⟩ := List.head?_eq_some_iff.mp (hhead hlaid)
  obtain ⟨t, rfl, rfl⟩ := Spaced.exists_next hds v
  obtain ⟨out', hout, hlaid', -⟩ := hlaid.plain_next (b := '/') (by decide) (by decide) hbegun.before
    (hbegun.mark_apart (by decide))
  obtain ⟨-, rfl⟩ := List.cons.inj hout
  obtain ⟨ds, hds⟩ := List.head?_eq_some_iff.mp (hhead hlaid')
  exact ⟨ds, by rw [Spaced.text_next, hds]; rfl⟩

/-- A gap with a single line feed, at its front, is that line feed and indentation. -/
theorem isIndent_of_feedsBefore {before : Option Char} {k k' : Gap} (hk : k.chars = '\n' :: k'.chars)
    (hone : feedsBefore before k '/' = 1) (hbreaks : before.any (breaksLine · '/') = true → k = .feed)
    (hspace : ∀ d ∈ k.chars, isSpace d = true) : ∀ d ∈ k'.chars, isIndent d = true := by
  have hfeed : '\n' ∉ k'.chars := by
    unfold feedsBefore at hone
    split at hone
    · rename_i hbefore
      rw [hbreaks hbefore, Gap.chars_feed] at hk
      rw [← (List.cons.inj hk).2]
      exact List.not_mem_nil
    · rw [Gap.feeds, hk, List.count_cons_self] at hone
      exact List.count_eq_zero.mp (by omega)
  intro d hd
  have hne : d ≠ '\n' := by
    rintro rfl
    exact hfeed hd
  have hcases : d = ' ' ∨ d = '\t' ∨ d = '\r' ∨ d = '\n' := by
    simpa [isSpace] using hspace d (by rw [hk]; exact List.mem_cons_of_mem _ hd)
  simpa [isIndent, hne] using hcases

/-- Where a block of documentation lines ends, it still ends in the formatted text. -/
theorem Laid.endsBlock {s : LineState} {v : List Char} (h : Laid added s (.ofChars v) out)
    (hv : ∀ d, v.head? = some d → d = '\n') (hbare : ¬added (visible v).length)
    (hbroken : (Spaced.ofChars v).respace breakSpacer s.before = .ofChars v)
    (hspace : ∀ d ∈ v.takeWhile isBlank, isSpace d = true) (hends : EndsBlock v) :
    EndsBlock out := by
  have htext := Spaced.text_ofChars v
  have hsize : (visible v).length = (Spaced.ofChars v).size := by
    rw [← Spaced.length_letters, ← Spaced.visible_text, htext]
  rw [hsize] at hbare
  generalize Spaced.ofChars v = t at h htext hbare hbroken
  subst htext
  cases h with
  | last hend hbelow =>
      obtain rfl := hend.eq_nil hbare
      rcases hbelow with rfl | rfl
      · exact Or.inl rfl
      · exact Or.inr ⟨[], rfl, rfl⟩
  | stay hfeeds hrest => exact absurd hfeeds ((feedsBefore_of_feed hv).2 _)
  | @feed _ k c vc rest ending out n hfeeds hend hrest =>
      obtain rfl := hend.eq_nil hbare
      obtain ⟨⟨k', hk'⟩, -⟩ := feedsBefore_of_feed hv
      rw [Spaced.text_next] at hspace hends
      rw [List.takeWhile_append_of_pos k.blank] at hspace
      refine Or.inr ⟨_, rfl, ?_⟩
      rw [← List.append_assoc]
      by_cases hnone : docBlock (((if feedsBefore s.before k c = 1 then [] else ['\n']) ++
          List.replicate n ' ') ++ c :: out) = []
      · exact hnone
      · -- a block that starts here would have started here before
        exfalso
        have hblank : ∀ d ∈ (if feedsBefore s.before k c = 1 then [] else ['\n']) ++
            List.replicate n ' ', isBlank d = true := by
          intro d hd
          rcases mem_indentation hd with rfl | rfl <;> decide
        obtain ⟨hindent, said, hsaid⟩ := exists_of_docBlock hblank
          (fun d hd => by rw [← Option.some.inj hd]; exact vc) hnone
        obtain ⟨rfl, rfl⟩ := List.cons.inj hsaid
        have hbehind : Behind added '/' rest.text ('/' :: '/' :: said) :=
          ⟨rest, _, rfl, hrest, ready_start.begun .none '/' rest⟩
        obtain ⟨more, hmore⟩ := hbehind.slashes
        have hone : feedsBefore s.before k '/' = 1 := by
          by_cases hone : feedsBefore s.before k '/' = 1
          · exact hone
          · rw [if_neg hone] at hindent
            exact absurd (hindent '\n' (by simp)) (by decide)
        have hgap : s.before.any (breaksLine · '/') = true → k = .feed := by
          intro hany
          cases hbefore : s.before with
          | none =>
              rw [hbefore] at hany
              cases hany
          | some b =>
              rw [hbefore] at hany hbroken
              exact Spaced.feed_of_breaksLine hbroken hany
        have hkindent := isIndent_of_feedsBefore hk' hone hgap
          fun d hd => hspace d (List.mem_append_left _ hd)
        rcases hends with hnil | ⟨below, hbelow, hempty⟩
        · rw [hk'] at hnil
          cases hnil
        · rw [hk', hmore] at hbelow
          obtain rfl := (List.cons.inj hbelow).2
          exact docBlock_ne_nil hkindent more hempty

/-- The documentation lines at the front of a text still say the same with canonical spacing, and no semicolon is
added to them. -/
structure KeptDoc (added : Nat → Prop) (text : List Char) : Prop where
  kept : ∀ line ∈ docBlock text, keepsDocLine line = true
  bare : ∀ m, added m → (visible (text.drop (docWidth text))).length ≤ m → (visible text).length ≤ m

namespace KeptDoc

variable {line : List Char}

theorem imp {added' : Nat → Prop} {text : List Char} (h : KeptDoc added text)
    (himp : ∀ m, added' m → added m) : KeptDoc added' text :=
  ⟨h.kept, fun m hm => h.bare m (himp m hm)⟩

theorem kept_line {v : List Char} (h : KeptDoc added (line ++ v)) (hfeed : '\n' ∉ line)
    (hdoc : (docText? line).isSome = true) (hv : ∀ d, v.head? = some d → d = '\n') :
    keepsDocLine line = true := by
  refine h.kept line ?_
  cases v with
  | nil =>
      rw [List.append_nil, docBlock_line hfeed hdoc]
      exact List.mem_cons_self
  | cons d below =>
      obtain rfl := hv d rfl
      rw [docBlock_feed hfeed hdoc]
      exact List.mem_cons_self

theorem not_added {v : List Char} (h : KeptDoc added (line ++ v)) (hfeed : '\n' ∉ line)
    (hdoc : (docText? line).isSome = true) (hv : ∀ d, v.head? = some d → d = '\n')
    (hline : visible line ≠ []) : ¬added (visible v).length := by
  intro hadded
  have hdrop := length_visible_drop_le (length_le_docWidth hfeed hdoc hv) (line ++ v)
  rw [List.drop_left] at hdrop
  have hle := h.bare _ hadded hdrop
  have hpos := List.length_pos_iff.mpr hline
  rw [visible_append, List.length_append] at hle
  omega

/-- What holds of a block holds of the lines below its first. -/
theorem below {k text : List Char} (h : KeptDoc added (line ++ '\n' :: (k ++ text)))
    (hfeed : '\n' ∉ line) (hdoc : (docText? line).isSome = true) (hk : ∀ d ∈ k, isIndent d = true)
    (htext : docBlock text ≠ []) : KeptDoc added text := by
  obtain ⟨first, rest, hblock, hindent⟩ := docBlock_indent hk htext
  have hsplit : line ++ '\n' :: (k ++ text) = (line ++ '\n' :: k) ++ text := by simp
  have hdrop := drop_docWidth_below hfeed hdoc hk htext
  refine ⟨?_, ?_⟩
  · intro l hl
    have hblocks : docBlock (line ++ '\n' :: (k ++ text)) = line :: (k ++ first) :: rest := by
      rw [docBlock_feed hfeed hdoc, hindent]
    have hkept := h.kept
    rw [hblocks] at hkept
    rw [hblock] at hl
    rcases List.mem_cons.mp hl with rfl | hl
    · have hfirst := hkept (k ++ l) (List.mem_cons_of_mem _ List.mem_cons_self)
      rwa [keepsDocLine, trim, Gap.trimLeft_append ⟨k, fun d hd => isBlank_of_isIndent (hk d hd)⟩,
        ← trim, docText?_indent hk, ← keepsDocLine] at hfirst
    · exact hkept l (List.mem_cons_of_mem _ (List.mem_cons_of_mem _ hl))
  · intro m hm hle
    have hall := h.bare m hm (by rw [hdrop]; exact hle)
    rw [hsplit, visible_append, List.length_append] at hall
    omega

end KeptDoc

/-- A line below that belongs to a block has nothing but indentation before its slashes. -/
theorem exists_below {below : List Char} (h : docBlock below ≠ []) :
    ∃ (k : Gap) (v : isBlank '/' = false) (rest : Spaced),
      Spaced.ofChars ('\n' :: below) = .next (Gap.feed.append k) '/' v rest ∧
      (∀ d ∈ k.chars, isIndent d = true) ∧ below = k.chars ++ '/' :: rest.text ∧
      ∃ said, rest.text = '/' :: '/' :: said := by
  have htext := Spaced.text_ofChars below
  generalize Spaced.ofChars below = t at htext
  subst htext
  cases t with
  | last k =>
      have hnil : docBlock (k.chars ++ []) ≠ [] := by simpa using h
      obtain ⟨-, said, hsaid⟩ := exists_of_docBlock k.blank (by simp) hnil
      cases hsaid
  | next k c v rest =>
      have hhead : ∀ d, (c :: rest.text).head? = some d → isBlank d = false := by
        intro d hd
        rw [← Option.some.inj hd]
        exact v
      obtain ⟨hindent, said, hsaid⟩ := exists_of_docBlock k.blank hhead h
      obtain ⟨rfl, hrest⟩ := List.cons.inj hsaid
      refine ⟨k, v, rest, Spaced.text_inj ?_, hindent, rfl, said, hrest⟩
      rw [Spaced.text_ofChars]
      rfl

/-- Below a documentation line stands the next one, with nothing but a line feed and indentation between. -/
theorem Laid.doc_below {s : LineState} {k : Gap} {v : isBlank '/' = false} {rest : Spaced}
    (h : Laid added s (.next (Gap.feed.append k) '/' v rest) out)
    (hindent : ∀ d ∈ k.chars, isIndent d = true) (hbare : ¬added (rest.size + 1)) :
    ∃ n out', out = '\n' :: (List.replicate n ' ' ++ '/' :: out') ∧
      Behind added '/' rest.text out' := by
  have hfeed : '\n' ∉ k.chars := fun hmem => absurd (hindent _ hmem) (by decide)
  have hone : feedsBefore s.before (Gap.feed.append k) '/' = 1 := by
    have hfeeds : (Gap.feed.append k).feeds = 1 := by
      simp [Gap.feeds, Gap.append, List.count_eq_zero.mpr hfeed]
    unfold feedsBefore
    split
    · rfl
    · exact hfeeds
  cases h with
  | stay hfeeds hrest =>
      rw [hone] at hfeeds
      cases hfeeds
  | @feed _ _ _ _ _ ending out n hfeeds hend hrest =>
      obtain rfl := hend.eq_nil hbare
      rw [if_pos hone]
      exact ⟨n, out, rfl, rest, _, rfl, hrest, ready_start.begun .none '/' rest⟩

theorem Between.imp {added' : Nat → Prop} {text : List Char} (h : Between added text out)
    (himp : ∀ m, added m → added' m) : Between added' text out := by
  obtain ⟨t, s, htext, hlaid, hready⟩ := h
  exact ⟨t, s, htext, hlaid.imp himp, hready⟩

/-- The first of the documentation lines at the front of a text, in the text and in the formatted text. -/
theorem Behind.doc_first (h : Behind added '/' cs out) (hslashes : ∃ said, cs = '/' :: '/' :: said)
    (hbraces : breakAtBraces ('/' :: cs) = '/' :: cs) :
    ∃ (said said' v out' : List Char) (s : LineState),
      cs = '/' :: '/' :: said ++ v ∧ out = '/' :: '/' :: said' ++ out' ∧
      '\n' ∉ said ∧ '\n' ∉ said' ∧ (∀ d, v.head? = some d → d = '\n') ∧
      Laid (fun m => added m ∧ m ≠ (visible v).length) s (.ofChars v) out' ∧ s.Ready ∧
      (Spaced.ofChars v).respace breakSpacer s.before = .ofChars v ∧
      (keepsDocLine ('/' :: '/' :: '/' :: said) = true → ¬added (visible v).length →
        docLine said' = docLine said) := by
  obtain ⟨said, hsaid⟩ := hslashes
  obtain ⟨line, v, rfl, hrun, hstop⟩ := exists_run (· ≠ '\n') cs
  have hfeed : '\n' ∉ line := fun hmem => by simpa using hrun _ hmem
  have hv : ∀ d, v.head? = some d → d = '\n' := fun d hd => by simpa using hstop d hd
  have hvslash : v.head? ≠ some '/' := fun hhead => absurd (hv _ hhead) (by decide)
  obtain ⟨line, rfl, hline⟩ := exists_cons_of_append hsaid hvslash
  obtain ⟨text, rfl, -⟩ := exists_cons_of_append hline hvslash
  obtain ⟨said', ending, out', s, hnormal, hsaid', rfl, hend, hlaid, hready, hbroken⟩ :=
    h.doc_line hbraces ⟨text, rfl⟩ hfeed hv
  refine ⟨text, said' ++ ending, v, out', s, rfl, by simp, by simpa using hfeed, ?_, hv, hlaid, hready,
    hbroken, fun hkept hbare => ?_⟩
  · intro hmem
    exact (List.mem_append.mp hmem).elim hsaid' hend.feed_not_mem
  · obtain rfl := hend.eq_nil hbare
    have hsame : (docText? (normalize (trim ('/' :: '/' :: '/' :: text)))).map docLine =
        (docText? ('/' :: '/' :: '/' :: text)).map docLine := of_decide_eq_true hkept
    rw [hnormal] at hsame
    rw [List.append_nil]
    exact Option.some.inj hsame

/-- The documentation lines at the front of a text are found where they were, with what belongs to them behind
them.  They say what they said, if they are kept. -/
theorem Behind.doc_block (h : Behind added '/' cs out) (hslashes : ∃ said, cs = '/' :: '/' :: said)
    (hbraces : breakAtBraces ('/' :: cs) = '/' :: cs)
    (hspace : ∀ d ∈ (('/' :: cs).drop (docWidth ('/' :: cs))).takeWhile isBlank, isSpace d = true) :
    (∃ said, out = '/' :: '/' :: said) ∧
      Between (fun m => added m ∧ m ≠ (visible (('/' :: cs).drop (docWidth ('/' :: cs)))).length)
        (('/' :: cs).drop (docWidth ('/' :: cs))) (('/' :: out).drop (docWidth ('/' :: out))) ∧
      (KeptDoc added ('/' :: cs) → docTexts ('/' :: out) = docTexts ('/' :: cs)) := by
  induction hn : cs.length using Nat.strongRecOn generalizing cs out added with
  | ind n ih =>
      subst hn
      obtain ⟨said, said', v, out', s, rfl, rfl, hfeed, hfeed', hv, hlaid, hready, hbroken, hkeeps⟩ :=
        h.doc_first hslashes hbraces
      have hlinefeed : '\n' ∉ '/' :: '/' :: '/' :: said := by simpa using hfeed
      have hlinefeed' : '\n' ∉ '/' :: '/' :: '/' :: said' := by simpa using hfeed'
      have hsource : '/' :: ('/' :: '/' :: said ++ v) = '/' :: '/' :: '/' :: said ++ v := rfl
      have hformatted : '/' :: ('/' :: '/' :: said' ++ out') = '/' :: '/' :: '/' :: said' ++ out' := rfl
      have hvisible : visible ('/' :: '/' :: '/' :: said) ≠ [] := by
        rw [visible_cons (by decide)]
        exact List.cons_ne_nil _ _
      rw [hsource] at hspace hbraces ⊢
      rw [hformatted]
      have hfirst : KeptDoc added ('/' :: '/' :: '/' :: said ++ v) → docLine said' = docLine said :=
        fun hkept => hkeeps (hkept.kept_line hlinefeed rfl hv)
          (hkept.not_added hlinefeed rfl hv hvisible)
      refine ⟨⟨said' ++ out', rfl⟩, ?_⟩
      by_cases hends : EndsBlock v
      · rw [docWidth_of_endsBlock hlinefeed rfl hends, List.drop_left] at hspace ⊢
        have hends' := hlaid.endsBlock hv (fun hm => hm.2 rfl) hbroken hspace hends
        constructor
        · rw [docWidth_of_endsBlock hlinefeed' rfl hends', List.drop_left]
          exact ⟨.ofChars v, s, Spaced.text_ofChars v, hlaid, hready⟩
        · intro hkept
          rw [docTexts_of_endsBlock hlinefeed rfl hends, docTexts_of_endsBlock hlinefeed' rfl hends',
            hfirst hkept]
      · -- the next line belongs to the block
        obtain ⟨below, rfl, hbelow⟩ := exists_of_not_endsBlock hv hends
        obtain ⟨k, hv', rest, htext, hindent, rfl, more, hmore⟩ := exists_below hbelow
        have hblock : docBlock ('/' :: rest.text) ≠ [] := by
          rw [hmore]
          exact docBlock_ne_nil (k := []) (by simp) more
        have hsize : (visible ('\n' :: (k.chars ++ '/' :: rest.text))).length = rest.size + 1 := by
          rw [← Spaced.text_ofChars ('\n' :: _), Spaced.visible_text, Spaced.length_letters, htext]
          rfl
        have hbraces' : breakAtBraces ('/' :: rest.text) = '/' :: rest.text :=
          breakAtBraces_suffix hbraces ⟨'/' :: '/' :: '/' :: said ++ '\n' :: k.chars, by simp⟩
        rw [htext] at hlaid
        obtain ⟨n, out, rfl, hbehind⟩ := hlaid.doc_below hindent fun hm => hm.2 hsize.symm
        have hdrop := drop_docWidth_below hlinefeed rfl hindent hblock
        rw [hdrop] at hspace
        obtain ⟨⟨more', rfl⟩, hbetween, htexts⟩ :=
          ih _ (by simp; omega) hbehind ⟨more, hmore⟩ hbraces' hspace rfl
        have hspaces : ∀ d ∈ List.replicate n ' ', isIndent d = true := by
          intro d hd
          rw [(List.mem_replicate.mp hd).2]
          decide
        have hblock' : docBlock ('/' :: '/' :: '/' :: more') ≠ [] :=
          docBlock_ne_nil (k := []) (by simp) more'
        constructor
        · rw [hdrop, drop_docWidth_below hlinefeed' rfl hspaces hblock']
          exact hbetween.imp fun m hm => ⟨hm.1.1, hm.2⟩
        · intro hkept
          rw [docTexts_feed hlinefeed' rfl, docTexts_feed hlinefeed rfl, docTexts_indent hindent hblock,
            docTexts_indent hspaces hblock', hfirst hkept,
            htexts ((hkept.below hlinefeed rfl hindent hblock).imp fun m hm => hm.1)]

/-- A documentation comment is found where it was, with a semicolon that is added to its last line in it. -/
theorem Behind.doc {said : List Char} (h : Behind added '/' ('/' :: '/' :: said) out)
    (hbraces : breakAtBraces ('/' :: '/' :: '/' :: said) = '/' :: '/' :: '/' :: said) {text : String}
    {width : Nat} (hscan : scanDoc ('/' :: '/' :: '/' :: said) = .token (.doc text) width)
    (hspace : ∀ d ∈ (('/' :: '/' :: '/' :: said).drop width).takeWhile isBlank, isSpace d = true) :
    ∃ text' width', scan '/' out = .token (.doc text') width' ∧
      Between (fun m => added m ∧ m ≠ (visible (('/' :: '/' :: '/' :: said).drop width)).length)
        (('/' :: '/' :: '/' :: said).drop width) (('/' :: out).drop width') ∧
      (KeptDoc added ('/' :: '/' :: '/' :: said) → text' = text) := by
  rw [scanDoc_eq] at hscan
  obtain ⟨htext, rfl⟩ := Scan.token.inj hscan
  obtain rfl := Kind.doc.inj htext
  obtain ⟨⟨said', rfl⟩, hbetween, htexts⟩ := h.doc_block ⟨said, rfl⟩ hbraces hspace
  exact ⟨_, _, rfl, hbetween,
    fun hkept => congrArg (fun texts => String.ofList (unlines texts)) (htexts hkept)⟩

end ScriptLens.Layout
