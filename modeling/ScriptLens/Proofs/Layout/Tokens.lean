import ScriptLens.Proofs.Layout.Stretch
import ScriptLens.Proofs.Token.Fronts

/-!
# The tokens of a formatted text

Cutting a text and its formatted text into tokens, one scan finds in the one what it finds in the other.
`Behind` says that the one was laid out from the other with a scan just begun, and `Between` that no scan has
begun.  Words, numerals and marks are never touched; strings are not if the spacing rules leave them alone.

Main statements: `Behind.word`, `Behind.numeral`, `Behind.mark` and `Behind.string`.
-/

namespace ScriptLens.Layout

open Text Token

/-! ### Places of scans -/

/-- A walk right behind the first character of what a scan finds. -/
structure LineState.Begun (s : LineState) (c : Char) (rest : Spaced) : Prop where
  before : s.before = some c
  mark : s.mark =
    match leadingMark? comparisonMarks (c :: rest.text) with
    | some mark => .within (mark.length - 1)
    | none => .apart
  stem : isWordChar c = false → s.stem = []

theorem LineState.Ready.begun {s : LineState} (h : s.Ready) (g : Gap) (c : Char) (rest : Spaced) :
    (lineSpacer.advance s g c rest).Begun c rest where
  before := rfl
  mark := comparison_advance h g c rest
  stem hc := by simp [lineSpacer, wordSpacer, hc]

namespace LineState.Begun

variable {s : LineState} {c : Char} {rest : Spaced}

/-- Behind a character of no word nothing is left of what was before. -/
theorem eq_first (h : s.Begun c rest) (hc : isWordChar c = false) : s = .first c rest := by
  have hfirst := ready_start.begun .none c rest
  obtain ⟨mark, before, stem⟩ := s
  obtain rfl : before = some c := h.before
  obtain rfl : stem = [] := h.stem hc
  have hmark : mark = (LineState.first c rest).mark := h.mark.trans hfirst.mark.symm
  have hstem : (LineState.first c rest).stem = [] := hfirst.stem hc
  rw [hmark, ← hstem]
  rfl

theorem mark_apart (h : s.Begun c rest) (hc : c ∉ comparisonHeads) : s.mark = .apart := by
  have hequal : c ≠ '=' := by
    rintro rfl
    exact hc (by decide)
  rw [h.mark, leadingMark?_single (by simp [hc]), if_neg hequal]

theorem aligned (h : s.Begun c rest) : Aligned s rest := by
  intro n hn
  rw [h.mark] at hn
  by_cases hpair : c ∈ comparisonHeads ∧ rest.text.head? = some '='
  · rw [leadingMark?_pair hpair.1 hpair.2] at hn
    obtain rfl : n = 0 := by simpa using MarkState.within.inj hn
    exact ⟨rfl, hpair.2⟩
  · rw [leadingMark?_single hpair] at hn
    by_cases hc : c = '='
    · rw [if_pos hc] at hn
      cases hn
    · rw [if_neg hc] at hn
      cases hn

end LineState.Begun

/-- What was laid out from a text at a place between tokens. -/
def Between (added : Nat → Prop) (text out : List Char) : Prop :=
  ∃ (t : Spaced) (s : LineState), t.text = text ∧ Laid added s t out ∧ s.Ready

/-- What was laid out from a text behind the first character of what a scan finds. -/
def Behind (added : Nat → Prop) (c : Char) (text out : List Char) : Prop :=
  ∃ (t : Spaced) (s : LineState), t.text = text ∧ Laid added s t out ∧ s.Begun c t

variable {added : Nat → Prop} {c : Char} {cs out : List Char}

theorem Behind.loose (h : Behind added c cs out) {d : Char} (hd : out.head? = some d) :
    cs.head? = some d ∨ isLoose d = true := by
  obtain ⟨t, s, rfl, hlaid, -⟩ := h
  exact hlaid.loose hd

/-! ### Words and numerals -/

theorem isPlain_of_isNameChar {d : Char} (h : isNameChar d = true) : isPlain d = true := by
  have hblank : isBlank d = false := by
    cases hd : isBlank d with
    | false => rfl
    | true =>
        rw [isNameChar_of_isBlank hd] at h
        cases h
  have hne : ∀ e, isNameChar e = false → d ≠ e := by
    rintro e he rfl
    rw [h] at he
    cases he
  rw [isPlain_iff]
  refine ⟨hblank, ?_, hne _ (by decide), hne _ (by decide), hne _ (by decide), hne _ (by decide),
    hne _ (by decide), hne _ (by decide)⟩
  simp [comparisonHeads, hne '=' (by decide), hne '!' (by decide), hne '<' (by decide),
    hne '>' (by decide)]

theorem isNameChar_of_isNumeralChar {d : Char} (h : isNumeralChar d = true) : isNameChar d = true := by
  unfold isNumeralChar at h
  unfold isNameChar isNumeric
  cases hd : isDigit d <;> simp_all

/-- A plain stretch behind a plain character is found as it is. -/
theorem Behind.plain (h : Behind added c cs out) (hc : isPlain c = true) {u v : List Char}
    (hcs : cs = u ++ v) (hu : ∀ d ∈ u, isPlain d = true) :
    ∃ rest s out', rest.text = v ∧ out = u ++ out' ∧ Laid added s rest out' ∧ s.mark = .apart ∧
      ∃ d, s.before = some d ∧ isPlain d = true := by
  obtain ⟨t, s, rfl, hlaid, hbegun⟩ := h
  exact hlaid.plain hcs hu hc hbegun.before (hbegun.mark_apart ((isPlain_iff c).mp hc).2.1)

theorem ready_of_apart {s : LineState} (h : s.mark = .apart) : s.Ready := by
  intro n hn
  rw [h] at hn
  cases hn

/-- What is laid out behind a stretch does not go on with it. -/
theorem Laid.stop {s : LineState} {t : Spaced} {out' : List Char} (h : Laid added s t out')
    {p : Char → Bool} (hp : ∀ d, p d = true → isLoose d = false)
    (ht : ∀ d, t.text.head? = some d → p d = false) :
    ∀ d, out'.head? = some d → p d = false := by
  intro d hd
  rcases h.loose hd with hhead | hloose
  · exact ht d hhead
  · cases hpd : p d with
    | false => rfl
    | true =>
        rw [hp d hpd] at hloose
        cases hloose

theorem isLoose_of_isNameChar (d : Char) (h : isNameChar d = true) : isLoose d = false := by
  obtain ⟨hblank, -, hcomma, hcolon, -⟩ := (isPlain_iff d).mp (isPlain_of_isNameChar h)
  have hsemicolon : d ≠ ';' := by
    rintro rfl
    exact absurd h (by decide)
  simp [isLoose, hblank, hcomma, hcolon, hsemicolon]

theorem isLoose_of_isNumeralChar (d : Char) (h : isNumeralChar d = true) : isLoose d = false :=
  isLoose_of_isNameChar d (isNameChar_of_isNumeralChar h)

/-- A word is found where it was. -/
theorem Behind.word (h : Behind added c cs out) (hc : isNameStart c = true) {kind : Kind}
    {width : Nat} (hscan : scanWord (c :: cs) = .token kind width) :
    scanWord (c :: out) = .token kind width ∧
      Between added ((c :: cs).drop width) ((c :: out).drop width) := by
  have hname := isNameChar_of_isNameStart hc
  obtain ⟨run, rest, hcs, hrun, hrest⟩ := exists_run isNameChar cs
  obtain ⟨t, s, out', rfl, hout, hlaid, hmark, -⟩ := h.plain (isPlain_of_isNameChar hname) hcs
    fun d hd => isPlain_of_isNameChar (hrun d hd)
  have hall : ∀ d ∈ c :: run, isNameChar d = true := by simpa [hname] using hrun
  have hstop := hlaid.stop isLoose_of_isNameChar hrest
  rw [hcs, ← List.cons_append] at hscan ⊢
  rw [hout, ← List.cons_append, ← scanWord_append hall hrest hstop,
    scanWord_width hall hrest hscan, List.drop_left, List.drop_left]
  rw [scanWord_width hall hrest hscan] at hscan
  exact ⟨hscan, t, s, rfl, hlaid, ready_of_apart hmark⟩

theorem isPlain_of_isNumeralChar {d : Char} (h : isNumeralChar d = true) : isPlain d = true :=
  isPlain_of_isNameChar (isNameChar_of_isNumeralChar h)

/-- A point with a digit behind it stands behind a plain character only if it stood there in the source. -/
theorem Laid.fraction_eq_nil {s : LineState} {t : Spaced} (h : Laid added s t out)
    (hmark : s.mark = .apart) {b : Char} (hbefore : s.before = some b) (hb : isPlain b = true)
    (hnone : fraction t.text = []) : fraction out = [] := by
  by_cases hne : fraction out = []
  · exact hne
  · obtain ⟨d, run, rest, rfl, hd, -⟩ := exists_fraction hne
    have hpoint : isPlain '.' = true := by decide
    have hdigit : isNumeralChar d = true := by simp [isNumeralChar, hd]
    have hhead := (h.loose (d := '.') rfl).resolve_right (by decide)
    obtain ⟨v, hv⟩ := List.head?_eq_some_iff.mp hhead
    obtain ⟨t', s', out', rfl, hout', hlaid', -⟩ :=
      h.plain (u := ['.']) hv (by simpa using hpoint) hb hbefore hmark
    obtain rfl : d :: (run ++ rest) = out' := (List.cons.inj hout').2
    have hhead' : t'.text.head? = some d := by
      refine (hlaid'.loose rfl).resolve_right ?_
      rw [isLoose_of_isNumeralChar d hdigit]
      exact Bool.false_ne_true
    obtain ⟨v, hv'⟩ := List.head?_eq_some_iff.mp hhead'
    rw [hv, hv'] at hnone
    simp [fraction, hd, isNumeralChar] at hnone

/-- A numeral without a fraction is found where it was. -/
theorem Behind.integer {run rest : List Char} (h : Behind added c (run ++ rest) out)
    (hall : ∀ d ∈ c :: run, isNumeralChar d = true)
    (hrest : ∀ d, rest.head? = some d → isNumeralChar d = false) (hfraction : fraction rest = []) :
    scanNumeral (c :: out) = scanNumeral (c :: run ++ rest) ∧
      ∃ out', out = run ++ out' ∧ Between added rest out' := by
  obtain ⟨hc, hrun⟩ := List.forall_mem_cons.mp hall
  obtain ⟨t, s, out', rfl, rfl, hlaid, hmark, b, hbefore, hb⟩ := h.plain (isPlain_of_isNumeralChar hc)
    rfl fun d hd => isPlain_of_isNumeralChar (hrun d hd)
  have hstop := hlaid.stop isLoose_of_isNumeralChar hrest
  have hnone := hlaid.fraction_eq_nil hmark hbefore hb hfraction
  refine ⟨?_, out', rfl, t, s, rfl, hlaid, ready_of_apart hmark⟩
  exact (scanNumeral_append hall hrest hstop (hnone.trans hfraction.symm)).symm

/-- A numeral with a fraction is found where it was. -/
theorem Behind.decimal {run run' rest : List Char} {d : Char}
    (h : Behind added c (run ++ '.' :: d :: (run' ++ rest)) out)
    (hall : ∀ e ∈ c :: run, isNumeralChar e = true) (hd : isDigit d = true)
    (hrun' : ∀ e ∈ run', isNumeralChar e = true)
    (hrest : ∀ e, rest.head? = some e → isNumeralChar e = false) :
    scanNumeral (c :: out) = scanNumeral (c :: run ++ '.' :: d :: (run' ++ rest)) ∧
      ∃ out', out = run ++ '.' :: d :: (run' ++ out') ∧ Between added rest out' := by
  obtain ⟨hc, hrun⟩ := List.forall_mem_cons.mp hall
  have hdigit : isNumeralChar d = true := by simp [isNumeralChar, hd]
  have hpoint : ∀ ds : List Char, ∀ e, ('.' :: ds).head? = some e → isNumeralChar e = false := by
    intro ds e he
    obtain rfl : '.' = e := by simpa using he
    decide
  have hstretch : ∀ e ∈ run ++ '.' :: d :: run', isPlain e = true := by
    intro e he
    simp only [List.mem_append, List.mem_cons] at he
    rcases he with he | rfl | rfl | he
    · exact isPlain_of_isNumeralChar (hrun e he)
    · decide
    · exact isPlain_of_isNumeralChar hdigit
    · exact isPlain_of_isNumeralChar (hrun' e he)
  obtain ⟨t, s, out', rfl, rfl, hlaid, hmark, -⟩ := h.plain (isPlain_of_isNumeralChar hc)
    (u := run ++ '.' :: d :: run') (v := rest) (by simp) hstretch
  have hstop := hlaid.stop isLoose_of_isNumeralChar hrest
  have hout : run ++ '.' :: d :: run' ++ out' = run ++ '.' :: d :: (run' ++ out') := by simp
  rw [hout]
  refine ⟨?_, out', rfl, t, s, rfl, hlaid, ready_of_apart hmark⟩
  refine (scanNumeral_append hall (hpoint _) (hpoint _) ?_).symm
  rw [fraction_append hd hrun' hrest, fraction_append hd hrun' hstop]

/-- A numeral is found where it was. -/
theorem Behind.numeral (h : Behind added c cs out) (hc : isDigit c = true) {kind : Kind}
    {width : Nat} (hscan : scanNumeral (c :: cs) = .token kind width) :
    scanNumeral (c :: out) = .token kind width ∧
      Between added ((c :: cs).drop width) ((c :: out).drop width) := by
  have hnumeral : isNumeralChar c = true := by simp [isNumeralChar, hc]
  obtain ⟨run, rest, rfl, hrun, hrest⟩ := exists_run isNumeralChar cs
  have hall : ∀ d ∈ c :: run, isNumeralChar d = true := by simpa [hnumeral] using hrun
  have hwidth := scanNumeral_width hall hrest hscan
  by_cases hfraction : fraction rest = []
  · obtain ⟨hsame, out', rfl, hbetween⟩ := h.integer hall hrest hfraction
    obtain rfl : width = (c :: run).length := by simpa [hfraction] using hwidth
    refine ⟨hsame.trans hscan, ?_⟩
    rw [← List.cons_append, List.drop_left, ← List.cons_append, List.drop_left]
    exact hbetween
  · obtain ⟨d, run', rest', rfl, hd, hdecimals, hrun', hrest'⟩ := exists_fraction hfraction
    obtain ⟨hsame, out', rfl, hbetween⟩ := h.decimal hall hd hrun' hrest'
    have hlength : width = (c :: run ++ '.' :: d :: run').length := by
      rw [hwidth, hdecimals]
      simp
      omega
    have hfront : ∀ ds : List Char, c :: (run ++ '.' :: d :: (run' ++ ds)) =
        (c :: run ++ '.' :: d :: run') ++ ds := by simp
    refine ⟨hsame.trans hscan, ?_⟩
    rw [hfront, hfront, hlength, List.drop_left, List.drop_left]
    exact hbetween

/-! ### Marks -/

/-- A mark of two characters is a comparison, or plain. -/
theorem pairMark?_cases {c d : Char} {m : Mark} (h : pairMark? c d = some m) :
    (c ∈ comparisonHeads ∧ d = '=') ∨ (isPlain c = true ∧ isPlain d = true) := by
  unfold pairMark? at h
  split at h
  · exact Or.inl (by decide)
  · exact Or.inl (by decide)
  · exact Or.inl (by decide)
  · exact Or.inl (by decide)
  · exact Or.inr (by decide)
  · exact Or.inr (by decide)
  · cases h

theorem pairMark?_equals {c : Char} (h : c ∈ comparisonHeads) : pairMark? c '=' ≠ none := by
  simp only [comparisonHeads, List.mem_cons, List.not_mem_nil, or_false] at h
  rcases h with rfl | rfl | rfl | rfl <;> simp [pairMark?]

/-- The second character of a mark is not loose. -/
theorem isLoose_of_pairMark? {c d : Char} {m : Mark} (h : pairMark? c d = some m) :
    isLoose d = false := by
  unfold pairMark? at h
  split at h <;> first | decide | cases h

/-- The equals sign of a comparison stays where it was. -/
theorem Behind.equals {rest : List Char} (h : Behind added c ('=' :: rest) out)
    (hc : c ∈ comparisonHeads) : ∃ out', out = '=' :: out' ∧ Between added rest out' := by
  obtain ⟨t, s, htext, hlaid, hbegun⟩ := h
  have v : isBlank '=' = false := by decide
  obtain ⟨t, rfl, rfl⟩ := Spaced.exists_next htext v
  obtain ⟨m, before, stem⟩ := s
  obtain rfl : before = some c := hbegun.before
  obtain rfl : m = .within 1 := by
    rw [show m = _ from hbegun.mark, leadingMark?_pair hc (by simp)]
    rfl
  have hbrace : c ≠ '{' := by
    rintro rfl
    exact absurd hc (by decide)
  cases hlaid with
  | stay hfeeds hrest =>
      rw [between_equals hc]
      exact ⟨_, rfl, t, _, rfl, hrest, fun n hn => by cases hn⟩
  | feed k hfeeds hend hrest =>
      exact absurd (by simp [feedsBefore, breaksLine, opensLine, closesLine, hbrace, Gap.feeds]) hfeeds

/-- A mark is found where it was. -/
theorem Behind.mark (h : Behind added c cs out) {kind : Kind} {width : Nat}
    (hscan : scanMark c cs = .token kind width) :
    scanMark c out = .token kind width ∧
      Between added ((c :: cs).drop width) ((c :: out).drop width) := by
  unfold scanMark at hscan
  split at hscan
  · rename_i m hm
    obtain ⟨d, hd, hpair⟩ := Option.bind_eq_some_iff.mp hm
    obtain ⟨rest, rfl⟩ := List.head?_eq_some_iff.mp hd
    obtain ⟨rfl, rfl⟩ := Scan.token.inj hscan
    -- the second character stands right behind the first one again
    obtain ⟨out', rfl, hbetween⟩ : ∃ out', out = d :: out' ∧ Between added rest out' := by
      rcases pairMark?_cases hpair with ⟨hheads, rfl⟩ | ⟨hc, hplain⟩
      · exact h.equals hheads
      · obtain ⟨t, s, out', rfl, hout, hlaid, hmark, -⟩ :=
          h.plain hc (u := [d]) rfl (by simpa using hplain)
        exact ⟨out', hout, t, s, rfl, hlaid, ready_of_apart hmark⟩
    refine ⟨?_, hbetween⟩
    rw [scanMark, List.head?_cons, Option.bind_some, hpair]
  · rename_i hsingle
    have hnone : out.head?.bind (pairMark? c) = none := by
      cases hout : out.head? with
      | none => rfl
      | some d =>
          cases hpair : pairMark? c d with
          | none => exact hpair
          | some m =>
              have hhead : cs.head? = some d := by
                simpa [isLoose_of_pairMark? hpair] using h.loose hout
              rw [hhead, Option.bind_some, hpair] at hsingle
              cases hsingle
    obtain ⟨t, s, rfl, hlaid, hbegun⟩ := h
    have hready : s.Ready := by
      intro n hn
      obtain ⟨-, hequals⟩ := hbegun.aligned n hn
      by_cases hheads : c ∈ comparisonHeads
      · rw [hequals] at hsingle
        exact pairMark?_equals hheads hsingle
      · rw [hbegun.mark_apart hheads] at hn
        cases hn
    split at hscan
    · rename_i m hm
      obtain ⟨rfl, rfl⟩ := Scan.token.inj hscan
      refine ⟨?_, t, s, rfl, hlaid, hready⟩
      rw [scanMark, hnone, hm]
    · cases hscan

/-! ### Strings -/

/-- A stretch on one line of a text with no line left to break stands in the formatted text with canonical
spacing, if nothing but the stretch itself decides how it is spaced. -/
theorem Behind.stretch (h : Behind added c cs out) (v : isBlank c = false) (hword : isWordChar c = false)
    (hheads : c ∉ comparisonHeads) {u rest : List Char} (hcs : cs = u ++ rest) (hfeed : '\n' ∉ u)
    (hbraces : breakAtBraces (c :: cs) = c :: cs)
    (hlast : ∀ d, u.getLast? = some d → isBlank d = false)
    (hrest : ∀ d, u.getLast? = some d → d ∈ comparisonHeads → rest.head? ≠ some '=') :
    ∃ u' t s out', normalize (c :: u) = c :: u' ∧ t.text = rest ∧ out = u' ++ out' ∧
      Laid added s t out' ∧ Aligned s t ∧ s.before = (u.getLast?).or (some c) ∧
      ((∀ d, u.getLast? = some d → d ∉ comparisonHeads) → s.Ready) := by
  obtain ⟨t, s, rfl, hlaid, hbegun⟩ := h
  rw [hcs] at hbraces
  obtain ⟨r, t, rfl, rfl, rfl⟩ := Spaced.exists_append hcs hlast
  have hfinal : r.lastOf (some c) = (r.text.getLast?).or (some c) := by
    cases hr : r.text.getLast? with
    | none =>
        rw [show r = .last .none from Spaced.text_inj (List.getLast?_eq_none_iff.mp hr)]
        rfl
    | some d => rw [Spaced.lastOf_of_getLast? hr (hlast d hr)]; rfl
  have hseam : r.Seam (some c) t := by
    intro d hd hdheads
    rw [hfinal] at hd
    cases hr : r.text.getLast? with
    | none =>
        obtain rfl : c = d := by simpa [hr] using hd
        exact absurd hdheads hheads
    | some e =>
        obtain rfl : e = d := by simpa [hr] using hd
        exact hrest e hr hdheads
  have hfirst : LineState.first c (r.append t) = .first c r :=
    (lineSpacer_congr (Spaced.leadingMark?_append hseam) .none).2
  obtain rfl : s = .first c r := (hbegun.eq_first hword).trans hfirst
  have hrow : r.Unbroken (some c) := Spaced.unbroken_of_breakAtBraces v hbraces hfeed rfl
  obtain ⟨out', hout, hbehind⟩ := hlaid.exists_of_append hrow hseam
  refine ⟨_, t, _, out', normalize_row v r, rfl, hout, hbehind, hbegun.aligned.final hseam, ?_,
    fun hend => ?_⟩
  · rw [Spaced.before_final]
    exact hfinal
  · refine hbegun.aligned.ready_final (fun d hd => ?_) fun _ => ?_
    · rw [show (LineState.first c r).before = some c from rfl, hfinal] at hd
      cases hr : r.text.getLast? with
      | none =>
          obtain rfl : c = d := by simpa [hr] using hd
          exact hheads
      | some e =>
          obtain rfl : e = d := by simpa [hr] using hd
          exact hend e hr
    · exact ready_of_apart (hbegun.mark_apart hheads)

/-- A string literal that the spacing rules leave as it is is found where it was. -/
theorem Behind.string (h : Behind added c cs out) (hc : c = doubleQuote ∨ c = apostrophe)
    (hbraces : breakAtBraces (c :: cs) = c :: cs) {kind : Kind} {width : Nat}
    (hscan : scanString c cs = .token kind width)
    (hfixed : normalize ((c :: cs).take width) = (c :: cs).take width) :
    scanString c out = .token kind width ∧
      Between added ((c :: cs).drop width) ((c :: out).drop width) := by
  have hquote : isBlank c = false ∧ isWordChar c = false ∧ c ∉ comparisonHeads := by
    rcases hc with rfl | rfl <;> decide
  unfold scanString at hscan
  split at hscan
  · rename_i text n hbody
    obtain ⟨rfl, rfl⟩ := Scan.token.inj hscan
    obtain ⟨body, rest, rfl, rfl, hlast, hfeed, hagain⟩ := stringBody_append hbody
    rw [List.take_succ_cons, List.take_left] at hfixed
    obtain ⟨body', t, s, out', hnormal, rfl, rfl, hlaid, -, -, hready⟩ := h.stretch hquote.1
      hquote.2.1 hquote.2.2 rfl hfeed hbraces
      (fun d hd => by rw [hlast] at hd; rw [← Option.some.inj hd]; exact hquote.1)
      fun d hd hheads => by
        rw [hlast] at hd
        rw [← Option.some.inj hd] at hheads
        exact absurd hheads hquote.2.2
    obtain rfl : body' = body := (List.cons.inj (hnormal.symm.trans hfixed)).2
    refine ⟨?_, t, s, ?_, ?_, hready fun d hd => ?_⟩
    · rw [scanString, hagain out']
    · rw [List.drop_succ_cons, List.drop_left]
    · rw [List.drop_succ_cons, List.drop_left]
      exact hlaid
    · rw [hlast] at hd
      rw [← Option.some.inj hd]
      exact hquote.2.2
  · cases hscan
  · cases hscan

end ScriptLens.Layout
