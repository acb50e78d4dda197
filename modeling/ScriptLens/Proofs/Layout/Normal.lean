import ScriptLens.Layout.Format
import ScriptLens.Proofs.Layout.Rules

/-!
# Canonical spacing of a line

The five rules for the blanks on a line, applied one after the other, are one walk over the gaps of the
line (`lineSpacer`).  What the walk makes of a gap depends on the visible characters around it, and on
the gap itself only where no rule has a say.  So a second walk changes nothing.

Main statements: `normalize_normalize`, `visible_normalize`, `trim_normalize` and `mem_normalize`.
-/

namespace ScriptLens.Layout

open Text

/-! ### Five rules in one walk -/

/-- What is known of a line before a gap: where the walk stands with respect to comparisons, the visible
character before the gap, and the word that ends with it. -/
structure LineState where
  mark : MarkState
  before : Option Char
  stem : List Char

/-- The start of a line. -/
def LineState.start : LineState := ⟨.apart, none, []⟩

/-- The gaps around comparisons and assignments. -/
def comparisonSpacer : Spacer MarkState :=
  markSpacer comparisonMarks .one

/-- The gap before `c`, if the visible character before the gap or `c` is the separator `d`. -/
def separatorGap (d : Char) (before : Option Char) (g : Gap) (c : Char) : Gap :=
  if before = some d then .one else if c = d then .none else g

/-- The gap before `c` after all rules but the one behind a word. -/
def LineState.widen (s : LineState) (g : Gap) (c : Char) (rest : Spaced) : Gap :=
  let compared := comparisonSpacer.between s.mark g c rest
  let separated := separatorGap ':' s.before (separatorGap ',' s.before compared c) c
  if s.before.any (opensBlock · c) then .one else separated

/-- All rules for the blanks on a line. -/
def lineSpacer : Spacer LineState where
  between s g c rest := wordSpacer.between s.stem (s.widen g c rest) c rest
  behind s g :=
    if s.before = some ':' ∨ s.before = some ',' then .one else comparisonSpacer.behind s.mark g
  advance s g c rest :=
    { mark := comparisonSpacer.advance s.mark g c rest
      before := some c
      stem := wordSpacer.advance s.stem (s.widen g c rest) c rest }

/-- Where a walk stands with respect to a separator, by the visible character before. -/
def separatorState (d : Char) (before : Option Char) : MarkState :=
  if before = some d then .within 0 else .apart

theorem leadingMark?_separator (d c : Char) (cs : List Char) :
    leadingMark? [[d]] (c :: cs) = if c = d then some [d] else none := by
  by_cases h : c = d
  · simp [leadingMark?, h]
  · simp [leadingMark?, h, Ne.symm h]

theorem separator_between (d : Char) (before : Option Char) (g : Gap) (c : Char) (rest : Spaced) :
    (markSpacer [[d]] .none).between (separatorState d before) g c rest =
      separatorGap d before g c := by
  by_cases hb : before = some d
  · by_cases hc : c = d
    · simp [markSpacer, separatorState, separatorGap, leadingMark?_separator, hb, hc]
      rfl
    · simp [markSpacer, separatorState, separatorGap, leadingMark?_separator, hb, hc]
  · by_cases hc : c = d <;>
      simp [markSpacer, separatorState, separatorGap, leadingMark?_separator, hb, hc]

theorem separator_advance (d : Char) (before : Option Char) (g : Gap) (c : Char) (rest : Spaced) :
    (markSpacer [[d]] .none).advance (separatorState d before) g c rest =
      separatorState d (some c) := by
  by_cases hb : before = some d <;> by_cases hc : c = d <;>
    simp [markSpacer, separatorState, leadingMark?_separator, hb, hc]

theorem separator_behind (d : Char) (before : Option Char) (g : Gap) :
    (markSpacer [[d]] .none).behind (separatorState d before) g =
      if before = some d then .one else g := by
  by_cases hb : before = some d <;> simp [markSpacer, separatorState, hb]

/-- Walking over the gaps once for each rule is walking over them once for all rules. -/
theorem respace_line (t : Spaced) (s : LineState) :
    ((((t.respace comparisonSpacer s.mark).respace
        (markSpacer [[',']] .none) (separatorState ',' s.before)).respace
        (markSpacer [[':']] .none) (separatorState ':' s.before)).respace
        (pairSpacer opensBlock .one) s.before).respace wordSpacer s.stem =
      t.respace lineSpacer s := by
  induction t generalizing s with
  | last g =>
      simp only [Spaced.respace, separator_behind, lineSpacer, pairSpacer, wordSpacer]
      by_cases hcolon : s.before = some ':' <;> by_cases hcomma : s.before = some ',' <;>
        simp [hcolon, hcomma]
  | next g c v rest ih =>
      simp only [Spaced.respace, separator_between, separator_advance]
      have hrest := ih (lineSpacer.advance s g c rest)
      rw [← hrest]
      rfl

theorem comparisonMarks_solid : Solid comparisonMarks := by
  decide

theorem separator_solid {d : Char} (v : isBlank d = false) : Solid [[d]] := by
  simp [Solid, v]

/-- Canonical spacing is the walk over the gaps of the line. -/
theorem normalize_text (t : Spaced) :
    normalize t.text = (t.respace lineSpacer .start).trim.text := by
  have hcomparison : ∀ u : Spaced,
      substitute aroundComparison u.text = (u.respace comparisonSpacer .apart).text :=
    substitute_respaced_text .one comparisonMarks_solid
  have hcomma : ∀ u : Spaced,
      substitute afterComma u.text = (u.respace (markSpacer [[',']] .none) .apart).text :=
    substitute_respaced_text .none (separator_solid (d := ',') (by decide))
  have hcolon : ∀ u : Spaced,
      substitute afterColon u.text = (u.respace (markSpacer [[':']] .none) .apart).text :=
    substitute_respaced_text .none (separator_solid (d := ':') (by decide))
  have hline := respace_line t .start
  rw [normalize, spacingRules]
  simp only [List.foldl_cons, List.foldl_nil]
  rw [hcomparison, hcomma, hcolon, beforeBlock_pair.substitute_text, substitute_headWord_text,
    ← Spaced.trim_text, ← hline]
  rfl

/-! ### What a walk sees ahead -/

/-- The characters that make a comparison with an equals sign right behind them. -/
def comparisonHeads : List Char := ['=', '!', '<', '>']

theorem leadingMark?_pair {c : Char} (hc : c ∈ comparisonHeads) {cs : List Char}
    (hcs : cs.head? = some '=') : leadingMark? comparisonMarks (c :: cs) = some [c, '='] := by
  obtain ⟨ds, rfl⟩ := List.head?_eq_some_iff.mp hcs
  simp only [comparisonHeads, List.mem_cons, List.not_mem_nil, or_false] at hc
  rcases hc with rfl | rfl | rfl | rfl <;> rfl

theorem leadingMark?_single {c : Char} {cs : List Char}
    (h : ¬(c ∈ comparisonHeads ∧ cs.head? = some '=')) :
    leadingMark? comparisonMarks (c :: cs) = if c = '=' then some ['='] else none := by
  have hpair : ∀ d ∈ comparisonHeads, [d, '='].isPrefixOf (c :: cs) = false := by
    intro d hd
    cases hp : [d, '='].isPrefixOf (c :: cs) with
    | false => rfl
    | true =>
        obtain ⟨ds, hds⟩ := List.isPrefixOf_iff_prefix.mp hp
        obtain ⟨rfl, rfl⟩ := List.cons.inj hds
        exact absurd ⟨hd, rfl⟩ h
  have hequal := hpair '=' (by decide)
  have hbang := hpair '!' (by decide)
  have hless := hpair '<' (by decide)
  have hgreater := hpair '>' (by decide)
  simp only [leadingMark?, comparisonMarks, List.find?, hequal, hbang, hless, hgreater]
  by_cases hc : c = '='
  · simp [hc]
  · have hassign : ['='].isPrefixOf (c :: cs) = false := by simp [List.isPrefixOf, Ne.symm hc]
    rw [hassign, if_neg hc]

/-- Of the text behind a character only its first character matters for the mark there. -/
theorem leadingMark?_congr {c : Char} {cs ds : List Char}
    (h : c ∈ comparisonHeads → (cs.head? = some '=' ↔ ds.head? = some '=')) :
    leadingMark? comparisonMarks (c :: cs) = leadingMark? comparisonMarks (c :: ds) := by
  by_cases hcs : c ∈ comparisonHeads ∧ cs.head? = some '='
  · rw [leadingMark?_pair hcs.1 hcs.2, leadingMark?_pair hcs.1 ((h hcs.1).mp hcs.2)]
  · have hds : ¬(c ∈ comparisonHeads ∧ ds.head? = some '=') := by
      rintro ⟨hc, hd⟩
      exact hcs ⟨hc, (h hc).mpr hd⟩
    rw [leadingMark?_single hcs, leadingMark?_single hds]

/-- A text starts with an equals sign if its first visible character is one and no gap is before it. -/
theorem head?_text_eq_iff (t : Spaced) :
    t.text.head? = some '=' ↔
      ∃ (g : Gap) (v : isBlank '=' = false) (rest : Spaced), t = .next g '=' v rest ∧ g.chars = [] := by
  constructor
  · intro h
    obtain ⟨cs, hcs⟩ : ∃ cs, t.text = '=' :: cs := by
      cases htext : t.text with
      | nil => simp [htext] at h
      | cons c cs =>
          rw [htext] at h
          exact ⟨cs, by rw [Option.some.inj h]⟩
    obtain ⟨rest, rfl, -⟩ := Spaced.exists_next hcs (by decide)
    exact ⟨.none, _, rest, rfl, rfl⟩
  · rintro ⟨g, v, rest, rfl, hg⟩
    simp [hg]

/-- The walk sets the gap before an equals sign by comparisons alone. -/
theorem between_equals {c : Char} (hc : c ∈ comparisonHeads) (m : MarkState) (stem : List Char)
    (g : Gap) (rest : Spaced) :
    lineSpacer.between ⟨m, some c, stem⟩ g '=' rest = comparisonSpacer.between m g '=' rest := by
  have hcolon : c ≠ ':' := by rintro rfl; exact absurd hc (by decide)
  have hcomma : c ≠ ',' := by rintro rfl; exact absurd hc (by decide)
  simp [lineSpacer, wordSpacer, LineState.widen, separatorGap, opensBlock, hcolon, hcomma]

theorem lineSpacer_advance (s : LineState) (g : Gap) (c : Char) (rest : Spaced) :
    lineSpacer.advance s g c rest =
      ⟨comparisonSpacer.advance s.mark g c rest, some c,
        wordSpacer.advance s.stem (s.widen g c rest) c rest⟩ := rfl

/-- Outside a comparison the next state is decided by the mark that starts here. -/
theorem comparison_advance {m : MarkState} (hm : ∀ n, m ≠ .within (n + 1)) (g : Gap) (c : Char)
    (rest : Spaced) :
    comparisonSpacer.advance m g c rest =
      match leadingMark? comparisonMarks (c :: rest.text) with
      | some mark => .within (mark.length - 1)
      | none => .apart := by
  match m, hm with
  | .apart, _ => rfl
  | .within 0, _ => rfl
  | .within (n + 1), hm => exact absurd rfl (hm n)

/-- After a walk, an equals sign stands right behind a comparison head exactly if it did before. -/
theorem head?_respace {c : Char} (hc : c ∈ comparisonHeads) {s : LineState}
    (hs : ∀ n, s.mark ≠ .within (n + 1)) (g : Gap) (rest : Spaced) :
    (rest.respace lineSpacer (lineSpacer.advance s g c rest)).text.head? = some '=' ↔
      rest.text.head? = some '=' := by
  rw [head?_text_eq_iff, head?_text_eq_iff]
  cases rest with
  | last g₁ => simp [Spaced.respace]
  | next g₁ d v₁ rest₁ =>
      by_cases hd : d = '='
      · subst hd
        have hadvance := comparison_advance hs g c (.next g₁ '=' v₁ rest₁)
        have hgap : (lineSpacer.between (lineSpacer.advance s g c (.next g₁ '=' v₁ rest₁))
            g₁ '=' rest₁).chars = [] ↔ g₁.chars = [] := by
          rw [lineSpacer_advance, between_equals hc]
          by_cases hg₁ : g₁.chars = []
          · rw [leadingMark?_pair hc (by simp [hg₁])] at hadvance
            rw [hadvance]
            rfl
          · have hfar : ¬(c ∈ comparisonHeads ∧
                (Spaced.next g₁ '=' v₁ rest₁).text.head? = some '=') := by
              rw [head?_text_eq_iff]
              rintro ⟨-, g₂, v₂, rest₂, hnext, hg₂⟩
              obtain ⟨rfl, -⟩ := Spaced.next.inj hnext
              exact hg₁ hg₂
            have hstarts : (leadingMark? comparisonMarks ('=' :: rest₁.text)).isSome = true := by
              by_cases hnext : rest₁.text.head? = some '='
              · rw [leadingMark?_pair (by decide) hnext]
                rfl
              · rw [leadingMark?_single (by simp [hnext])]
                rfl
            rw [leadingMark?_single hfar] at hadvance
            rw [hadvance]
            by_cases hequal : c = '=' <;>
              simp [comparisonSpacer, markSpacer, hequal, hstarts, hg₁, Gap.cons]
        simpa [Spaced.respace, v₁] using hgap
      · simp [Spaced.respace, hd]

/-! ### A second walk -/

/-- Of the text behind a gap the walk sees only the mark that starts there, and inside a mark not even
that. -/
theorem comparison_congr {m : MarkState} {c : Char} {rest rest' : Spaced}
    (h : (∃ n, m = .within (n + 1)) ∨ leadingMark? comparisonMarks (c :: rest'.text) =
      leadingMark? comparisonMarks (c :: rest.text)) (g g' : Gap) :
    comparisonSpacer.between m g c rest' = comparisonSpacer.between m g c rest ∧
      comparisonSpacer.advance m g' c rest' = comparisonSpacer.advance m g c rest := by
  rcases h with ⟨n, rfl⟩ | h
  · exact ⟨rfl, rfl⟩
  · match m with
    | .apart => simp [comparisonSpacer, markSpacer, h]
    | .within 0 => simp [comparisonSpacer, markSpacer, h]
    | .within (n + 1) => exact ⟨rfl, rfl⟩

/-- A gap is either set without a look at what it was, or left as it was. -/
def Decided (f : Gap → Gap) : Prop :=
  (∃ k, ∀ g, f g = k) ∨ ∀ g, f g = g

theorem decided_comparison (m : MarkState) (c : Char) (rest : Spaced) :
    Decided fun g => comparisonSpacer.between m g c rest := by
  match m with
  | .within (n + 1) => exact Or.inr fun g => rfl
  | .within 0 => exact Or.inl ⟨_, fun g => rfl⟩
  | .apart =>
      cases h : leadingMark? comparisonMarks (c :: rest.text) with
      | none => exact Or.inr fun g => by simp [comparisonSpacer, markSpacer, h]
      | some mark => exact Or.inl ⟨.one, fun g => by simp [comparisonSpacer, markSpacer, h]⟩

theorem Decided.separator {f : Gap → Gap} (h : Decided f) (d : Char) (before : Option Char)
    (c : Char) : Decided fun g => separatorGap d before (f g) c := by
  unfold separatorGap
  split
  · exact Or.inl ⟨.one, fun _ => rfl⟩
  · split
    · exact Or.inl ⟨.none, fun _ => rfl⟩
    · exact h

theorem decided_widen (s : LineState) (c : Char) (rest : Spaced) :
    Decided fun g => s.widen g c rest := by
  unfold LineState.widen
  split
  · exact Or.inl ⟨.one, fun _ => rfl⟩
  · exact ((decided_comparison s.mark c rest).separator ',' s.before c).separator ':' s.before c

theorem word_between_idem (stem : List Char) (g : Gap) (c : Char) (rest rest' : Spaced) :
    wordSpacer.between stem (wordSpacer.between stem g c rest) c rest' =
      wordSpacer.between stem g c rest := by
  by_cases h : c = '(' ∧ stem.reverse ∈ headWords ∧ g.chars.length ≤ 1
  · simp [wordSpacer, h]
  · simp [wordSpacer, h]

/-- The rule behind a word does not change the gap before a word. -/
theorem word_advance_between (stem : List Char) (g : Gap) (c : Char) (rest rest' : Spaced) :
    wordSpacer.advance stem (wordSpacer.between stem g c rest) c rest' =
      wordSpacer.advance stem g c rest := by
  by_cases hc : c = '('
  · have hparen : isWordChar '(' = false := by decide
    simp [wordSpacer, hc, hparen]
  · simp [wordSpacer, hc]

/-- The walk sees the same marks in a text that it went over as it saw before. -/
theorem leadingMark?_respace (s : LineState) (g : Gap) (c : Char) (rest : Spaced) :
    (∃ n, s.mark = .within (n + 1)) ∨
      leadingMark? comparisonMarks
          (c :: (rest.respace lineSpacer (lineSpacer.advance s g c rest)).text) =
        leadingMark? comparisonMarks (c :: rest.text) := by
  by_cases hs : ∃ n, s.mark = .within (n + 1)
  · exact Or.inl hs
  · refine Or.inr (leadingMark?_congr fun hc => ?_)
    exact head?_respace hc (fun n hn => hs ⟨n, hn⟩) g rest

/-- A second walk changes nothing. -/
theorem respace_respace_line (t : Spaced) (s : LineState) :
    (t.respace lineSpacer s).respace lineSpacer s = t.respace lineSpacer s := by
  induction t generalizing s with
  | last g =>
      obtain ⟨m, before, stem⟩ := s
      by_cases hb : before = some ':' ∨ before = some ','
      · simp [Spaced.respace, lineSpacer, hb]
      · cases m with
        | apart => simp [Spaced.respace, lineSpacer, hb, comparisonSpacer, markSpacer]
        | within n => cases n <;> simp [Spaced.respace, lineSpacer, hb, comparisonSpacer, markSpacer]
  | next g c v rest ih =>
      have hahead := leadingMark?_respace s g c rest
      generalize hrest : rest.respace lineSpacer (lineSpacer.advance s g c rest) = rest' at hahead
      have hwiden : ∀ k, s.widen k c rest' = s.widen k c rest := by
        intro k
        simp only [LineState.widen, (comparison_congr hahead k k).1]
      -- the gap, once set, is set to the same again, and leaves the same behind it
      have hstep : lineSpacer.between s (lineSpacer.between s g c rest) c rest' =
            lineSpacer.between s g c rest ∧
          lineSpacer.advance s (lineSpacer.between s g c rest) c rest' =
            lineSpacer.advance s g c rest := by
        have hmark := (comparison_congr hahead g (lineSpacer.between s g c rest)).2
        rcases decided_widen s c rest with ⟨k, hk⟩ | hid
        · replace hk : ∀ g, s.widen g c rest = k := hk
          constructor
          · simp only [lineSpacer, hwiden, hk]
            rfl
          · rw [lineSpacer_advance, hmark, hwiden, hk, lineSpacer_advance, hk]
            rfl
        · replace hid : ∀ g, s.widen g c rest = g := hid
          constructor
          · simp only [lineSpacer, hwiden, hid]
            exact word_between_idem s.stem g c rest rest'
          · rw [lineSpacer_advance, hmark, hwiden, hid, lineSpacer_advance, hid]
            simp only [lineSpacer, hid, word_advance_between s.stem g c rest rest']
      rw [Spaced.respace, hrest, Spaced.respace, hstep.1, hstep.2, ← hrest, ih]

/-! ### Canonical spacing -/

/-- The gap behind a line has no part in what becomes of the other gaps. -/
theorem respace_setLast (t : Spaced) (s : LineState) (g : Gap) :
    ((t.setLast g).respace lineSpacer s).setLast .none =
      (t.respace lineSpacer s).setLast .none := by
  induction t generalizing s with
  | last h => rfl
  | next h c v rest ih =>
      have hsame : leadingMark? comparisonMarks (c :: (rest.setLast g).text) =
          leadingMark? comparisonMarks (c :: rest.text) := by
        refine leadingMark?_congr fun _ => ?_
        rw [head?_text_eq_iff, head?_text_eq_iff]
        cases rest <;> simp [Spaced.setLast]
      have hcongr := comparison_congr (m := s.mark) (Or.inr hsame) h h
      have hwiden : s.widen h c (rest.setLast g) = s.widen h c rest := by
        simp only [LineState.widen, hcongr.1]
      have hadvance : lineSpacer.advance s h c (rest.setLast g) = lineSpacer.advance s h c rest := by
        rw [lineSpacer_advance, lineSpacer_advance, hwiden, hcongr.2]
        rfl
      have hbetween : lineSpacer.between s h c (rest.setLast g) = lineSpacer.between s h c rest := by
        simp only [lineSpacer, hwiden]
        rfl
      rw [Spaced.setLast, Spaced.respace, Spaced.respace, Spaced.setLast, Spaced.setLast, hadvance,
        hbetween, ih]

/-- Trimming a line has no part in what becomes of the gaps in it. -/
theorem trim_respace_trim (t : Spaced) :
    (t.trim.respace lineSpacer .start).trim = (t.respace lineSpacer .start).trim := by
  have hlead : ((t.setLead .none).respace lineSpacer .start).setLead .none =
      (t.respace lineSpacer .start).setLead .none := by
    cases t with
    | last g => rfl
    | next g c v rest =>
        have hadvance : lineSpacer.advance .start .none c rest = lineSpacer.advance .start g c rest := by
          rw [lineSpacer_advance, lineSpacer_advance]
          simp [LineState.start, wordSpacer, comparisonSpacer, markSpacer]
        simp only [Spaced.setLead, Spaced.respace, hadvance]
  have hcomm : ∀ u : Spaced, (u.setLead .none).setLast .none = (u.setLast .none).setLead .none := by
    intro u
    cases u <;> rfl
  rw [Spaced.trim, Spaced.trim, Spaced.trim, hcomm, respace_setLast, ← hcomm, hlead]

/-- A line with canonical spacing keeps it. -/
theorem normalize_normalize (line : List Char) : normalize (normalize line) = normalize line := by
  rw [← Spaced.text_ofChars line, normalize_text, normalize_text, trim_respace_trim,
    respace_respace_line]

/-- Canonical spacing keeps the visible characters. -/
theorem visible_normalize (line : List Char) : visible (normalize line) = visible line := by
  rw [← Spaced.text_ofChars line, normalize_text, Spaced.visible_text, Spaced.visible_text]
  simp

theorem trim_trim (line : List Char) : trim (trim line) = trim line := by
  have htrim : ∀ t : Spaced, t.trim.trim = t.trim := by
    have hlast : ∀ t : Spaced, (t.setLast .none).setLast .none = t.setLast .none := by
      intro t
      induction t with
      | last g => rfl
      | next g c v rest ih => rw [Spaced.setLast, Spaced.setLast, ih]
    intro t
    cases t with
    | last g => rfl
    | next g c v rest => simp [Spaced.trim, Spaced.setLead, Spaced.setLast, hlast]
  rw [← Spaced.text_ofChars line, Spaced.trim_text, Spaced.trim_text, htrim]

/-- A line with canonical spacing is trimmed. -/
theorem trim_normalize (line : List Char) : trim (normalize line) = normalize line := by
  rw [normalize, trim_trim]

/-! ### No blanks but spaces are written -/

theorem mem_comparison {c d : Char} {m : MarkState} {g : Gap} {rest : Spaced}
    (h : c ∈ (comparisonSpacer.between m g d rest).chars) : c = ' ' ∨ c ∈ g.chars := by
  match m with
  | .within (n + 1) => exact Or.inr h
  | .within 0 =>
      simp only [comparisonSpacer, markSpacer] at h
      split at h <;> simp_all [Gap.cons]
  | .apart =>
      simp only [comparisonSpacer, markSpacer] at h
      split at h <;> simp_all

theorem mem_separatorGap {c d e : Char} {before : Option Char} {g : Gap}
    (h : c ∈ (separatorGap d before g e).chars) : c = ' ' ∨ c ∈ g.chars := by
  unfold separatorGap at h
  split at h
  · exact Or.inl (by simpa using h)
  · split at h
    · simp at h
    · exact Or.inr h

theorem mem_between {c d : Char} {s : LineState} {g : Gap} {rest : Spaced}
    (h : c ∈ (lineSpacer.between s g d rest).chars) : c = ' ' ∨ c ∈ g.chars := by
  have hwiden : c ∈ (s.widen g d rest).chars → c = ' ' ∨ c ∈ g.chars := by
    intro hc
    unfold LineState.widen at hc
    split at hc
    · exact Or.inl (by simpa using hc)
    · rcases mem_separatorGap hc with hspace | hcomma
      · exact Or.inl hspace
      · rcases mem_separatorGap hcomma with hspace | hcompared
        · exact Or.inl hspace
        · exact mem_comparison hcompared
  simp only [lineSpacer, wordSpacer] at h
  split at h
  · exact Or.inl (by simpa using h)
  · exact hwiden h

theorem mem_respace_line {c : Char} {t : Spaced} {s : LineState}
    (h : c ∈ ((t.respace lineSpacer s).setLast .none).text) : c = ' ' ∨ c ∈ t.text := by
  induction t generalizing s with
  | last g => simp [Spaced.respace, Spaced.setLast] at h
  | next g d v rest ih =>
      rw [Spaced.respace, Spaced.setLast, Spaced.text_next, List.mem_append, List.mem_cons] at h
      rw [Spaced.text_next, List.mem_append, List.mem_cons]
      rcases h with hgap | rfl | hrest
      · exact (mem_between hgap).imp id Or.inl
      · exact Or.inr (Or.inr (Or.inl rfl))
      · exact (ih hrest).imp id fun hc => Or.inr (Or.inr hc)

/-- Canonical spacing puts nothing but spaces into a line. -/
theorem mem_normalize {c : Char} {line : List Char} (h : c ∈ normalize line) :
    c = ' ' ∨ c ∈ line := by
  rw [← Spaced.text_ofChars line, normalize_text, Spaced.trim] at h
  rw [← Spaced.text_ofChars line]
  generalize Spaced.ofChars line = t at h
  refine mem_respace_line (s := .start) ?_
  cases t with
  | last g => exact h
  | next g d v rest =>
      rw [Spaced.respace, Spaced.setLead, Spaced.setLast, Spaced.text_next] at h
      rw [Spaced.respace, Spaced.setLast, Spaced.text_next]
      exact List.mem_append_right _ h

end ScriptLens.Layout
