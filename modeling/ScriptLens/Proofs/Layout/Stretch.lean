import ScriptLens.Proofs.Layout.Laid

/-!
# Stretches of a formatted text

What was laid out can be cut wherever the source can be cut.  A stretch of the source in which no row ends is
respaced by itself, and what is laid out behind it starts with nothing that could be taken for a part of it.
So a stretch that the spacing rules leave alone stands in the formatted text as it is.

Main statements: `Laid.exists_of_append`, `Laid.loose` and `Laid.plain`.
-/

namespace ScriptLens.Layout

open Text

/-! ### Cutting spaced texts -/

namespace Spaced

/-- A text is taken apart in one way only. -/
theorem text_inj {t u : Spaced} (h : t.text = u.text) : t = u := by
  induction t generalizing u with
  | last g =>
      cases u with
      | last k => exact congrArg last (Gap.eq_of_chars h)
      | next k d vd rest =>
          have hblank := g.blank d (by rw [← text_last, h, text_next]; simp)
          rw [vd] at hblank
          cases hblank
  | next g c v rest ih =>
      obtain ⟨k, rest', rfl, hk, hrest⟩ := exists_next_gap h.symm g.blank v
      rw [Gap.eq_of_chars hk, ih hrest.symm]

/-- The gap behind. -/
def tail : Spaced → Gap
  | .last g => g
  | .next _ _ _ rest => rest.tail

theorem text_eq_tail (t : Spaced) : t.text = (t.setLast .none).text ++ t.tail.chars := by
  induction t with
  | last g => rfl
  | next g c v rest ih => simp [setLast, tail, ← ih]

/-- A text can be cut anywhere, if the blanks before the cut go to what is behind it. -/
theorem exists_append_gap {t : Spaced} {u v : List Char} (h : t.text = u ++ v) :
    ∃ (r rest : Spaced) (g : Gap), t = r.append rest ∧ r.text = u ∧ rest.text = g.chars ++ v ∧
      ∀ c ∈ g.chars, c ∈ u := by
  have hcut := text_eq_tail (ofChars u)
  rw [text_ofChars] at hcut
  refine ⟨ofChars u, ofChars ((ofChars u).tail.chars ++ v), (ofChars u).tail, text_inj ?_,
    text_ofChars u, text_ofChars _, fun c hc => ?_⟩
  · rw [h, text_append, text_ofChars, ← List.append_assoc, ← hcut]
  · rw [hcut]
    exact List.mem_append_right _ hc

/-- Where the front of a text ends with a visible character, the text can be cut. -/
theorem exists_append {t : Spaced} {u v : List Char} (h : t.text = u ++ v)
    (hlast : ∀ c, u.getLast? = some c → isBlank c = false) :
    ∃ r rest : Spaced, t = r.append rest ∧ r.text = u ∧ rest.text = v := by
  refine ⟨ofChars u, ofChars v, text_inj ?_, text_ofChars u, text_ofChars v⟩
  have hend : ((ofChars u).setLast .none).text = u := by
    rw [← trimRight_setLast, text_ofChars]
    rcases List.eq_nil_or_concat u with rfl | ⟨init, c, rfl⟩
    · rfl
    · have hc := hlast c (by simp)
      simpa [trimRight] using trimRight_of_visible init c hc []
  rw [h, text_append, hend, text_ofChars]

/-- The last visible character of a text that ends with one. -/
theorem lastOf_of_getLast? {r : Spaced} {d : Char} (h : r.text.getLast? = some d)
    (v : isBlank d = false) (before : Option Char) : r.lastOf before = some d := by
  induction r generalizing before with
  | last g =>
      have hblank := g.blank d (List.mem_of_getLast? h)
      rw [v] at hblank
      cases hblank
  | next g c vc r ih =>
      rw [lastOf]
      rw [text_next, List.getLast?_append, List.getLast?_cons] at h
      cases hr : r.text.getLast? with
      | none =>
          obtain rfl : c = d := by simpa [hr] using h
          have hnil : r = .last .none := text_inj (List.getLast?_eq_none_iff.mp hr)
          rw [hnil]
          rfl
      | some e =>
          obtain rfl : e = d := by simpa [hr] using h
          exact ih hr _

theorem respace_of_breakAtBraces {t : Spaced} (h : breakAtBraces t.text = t.text) :
    t.respace breakSpacer none = t := by
  rw [breakAtBraces_text] at h
  exact text_inj h

/-- Where no line is left to break, none is left behind the first visible character. -/
theorem respace_break_rest {g : Gap} {c : Char} {v : isBlank c = false} {rest : Spaced}
    {before : Option Char} (h : (next g c v rest).respace breakSpacer before = .next g c v rest) :
    rest.respace breakSpacer (some c) = rest := by
  rw [respace] at h
  exact (Spaced.next.inj h).2.2

/-- Where no line is left to break, the gap at a brace is a line feed. -/
theorem feed_of_breaksLine {g : Gap} {c d : Char} {v : isBlank d = false} {rest : Spaced}
    (h : (next g d v rest).respace breakSpacer (some c) = .next g d v rest)
    (hbreaks : breaksLine c d = true) : g = .feed := by
  rw [respace] at h
  have hgap := (Spaced.next.inj h).1
  simpa [breakSpacer, pairSpacer, hbreaks] using hgap.symm

/-- Without a character before the text, no gap in front has to be a line feed. -/
theorem respace_break_front {t : Spaced} {before : Option Char} (h : t.respace breakSpacer before = t)
    (g : Gap) : (t.setLead g).respace breakSpacer none = t.setLead g := by
  cases t with
  | last k => rfl
  | next k c v rest =>
      rw [setLead, respace]
      exact congrArg _ (respace_break_rest h)

end Spaced

/-- Behind a visible character of a text with no line left to break. -/
theorem respace_of_breakAtBraces_cons {c : Char} (v : isBlank c = false) {t : Spaced}
    (h : breakAtBraces (c :: t.text) = c :: t.text) : t.respace breakSpacer (some c) = t :=
  Spaced.respace_break_rest (Spaced.respace_of_breakAtBraces (t := .next .none c v t) h)

/-- If no line of a text is left to break, no line of its end is. -/
theorem breakAtBraces_suffix {text rest : List Char} (h : breakAtBraces text = text)
    (hrest : rest <:+ text) : breakAtBraces rest = rest := by
  obtain ⟨front, rfl⟩ := hrest
  induction front with
  | nil => exact h
  | cons c front ih =>
      refine ih ?_
      have htext := Spaced.text_ofChars (front ++ rest)
      generalize Spaced.ofChars (front ++ rest) = t at htext
      rw [List.cons_append, ← htext] at h
      rw [← htext, breakAtBraces_text]
      have hfront : ∀ before, t.respace breakSpacer before = t → t.respace breakSpacer none = t := by
        intro before hbefore
        have := Spaced.respace_break_front hbefore t.lead
        rwa [Spaced.setLead_lead] at this
      cases hc : isBlank c with
      | false => rw [hfront _ (respace_of_breakAtBraces_cons hc h)]
      | true =>
          have hlead : (t.setLead (t.lead.cons c hc)).text = c :: t.text := by
            rw [Spaced.text_setLead, Gap.cons, List.cons_append, ← Spaced.text_eq_lead]
          rw [← hlead] at h
          have hback := Spaced.respace_break_front (Spaced.respace_of_breakAtBraces h) t.lead
          have hsame : (t.setLead (t.lead.cons c hc)).setLead t.lead = t := by cases t <;> rfl
          rw [hsame] at hback
          rw [hback]

/-- A stretch on one line has no place where a line has to end, if no line of the text is left to break. -/
theorem Spaced.unbroken_of_breakAtBraces {c : Char} (v : isBlank c = false) {u rest : List Char}
    (h : breakAtBraces (c :: (u ++ rest)) = c :: (u ++ rest)) (hfeed : '\n' ∉ u) {r : Spaced}
    (hr : r.text = u) : r.Unbroken (some c) := by
  subst hr
  induction r generalizing c with
  | last g => trivial
  | next g d vd r ih =>
      have hmem : '\n' ∉ g.chars ∧ '\n' ∉ r.text := by
        rw [text_next, List.mem_append, List.mem_cons] at hfeed
        exact ⟨fun hg => hfeed (Or.inl hg), fun hr => hfeed (Or.inr (Or.inr hr))⟩
      have htext : (next g d vd (.ofChars (r.text ++ rest))).text = (next g d vd r).text ++ rest := by
        simp [text_ofChars]
      have hsuffix : d :: (r.text ++ rest) <:+ c :: ((next g d vd r).text ++ rest) :=
        ⟨c :: g.chars, by simp⟩
      refine ⟨?_, ih vd (breakAtBraces_suffix h hsuffix) hmem.2⟩
      rw [← htext] at h
      have hbroken := respace_of_breakAtBraces_cons v h
      unfold feedsBefore
      split
      · rename_i hbreaks
        have hgap := feed_of_breaksLine hbroken (by simpa using hbreaks)
        exact absurd (by rw [hgap]; exact List.mem_singleton_self _) hmem.1
      · exact List.count_eq_zero.mpr hmem.1

/-! ### Comparisons and the walk -/

/-- Not inside a comparison. -/
def LineState.Ready (s : LineState) : Prop :=
  ∀ n, s.mark ≠ .within (n + 1)

/-- The only place inside a comparison is before its equals sign. -/
def Aligned (s : LineState) (t : Spaced) : Prop :=
  ∀ n, s.mark = .within (n + 1) → n = 0 ∧ t.text.head? = some '='

theorem ready_start : LineState.start.Ready := by
  intro n h
  cases h

theorem LineState.Ready.aligned {s : LineState} (h : s.Ready) (t : Spaced) : Aligned s t :=
  fun n hn => absurd hn (h n)

namespace Aligned

variable {s : LineState}

theorem ready {t : Spaced} (h : Aligned s t) (ht : t.text.head? ≠ some '=') : s.Ready :=
  fun n hn => ht (h n hn).2

/-- The walk goes from one place to the next. -/
theorem advance {g : Gap} {c : Char} {v : isBlank c = false} {rest : Spaced}
    (h : Aligned s (.next g c v rest)) : Aligned (lineSpacer.advance s g c rest) rest := by
  intro n hn
  have hmark : comparisonSpacer.advance s.mark g c rest = .within (n + 1) := hn
  by_cases hs : s.Ready
  · rw [comparison_advance hs] at hmark
    by_cases hpair : c ∈ comparisonHeads ∧ rest.text.head? = some '='
    · rw [leadingMark?_pair hpair.1 hpair.2] at hmark
      obtain rfl : n = 0 := by simpa using MarkState.within.inj hmark
      exact ⟨rfl, hpair.2⟩
    · rw [leadingMark?_single hpair] at hmark
      by_cases hc : c = '='
      · rw [if_pos hc] at hmark
        cases hmark
      · rw [if_neg hc] at hmark
        cases hmark
  · obtain ⟨m, hm⟩ : ∃ m, s.mark = .within (m + 1) := by
      simpa [LineState.Ready] using hs
    obtain ⟨rfl, -⟩ := h m hm
    rw [hm] at hmark
    cases hmark

/-- Behind a character that starts no comparison the walk is outside of comparisons. -/
theorem ready_advance {g : Gap} {c : Char} {v : isBlank c = false} {rest : Spaced}
    (h : Aligned s (.next g c v rest)) (hc : c ∉ comparisonHeads) :
    (lineSpacer.advance s g c rest).Ready := by
  have hs : s.Ready := by
    refine h.ready fun hhead => ?_
    obtain ⟨_, _, _, hnext, -⟩ := (head?_text_eq_iff _).mp hhead
    obtain ⟨-, rfl, -⟩ := Spaced.next.inj hnext
    exact hc (by decide)
  intro n hn
  have hmark : comparisonSpacer.advance s.mark g c rest = .within (n + 1) := hn
  have hequal : c ≠ '=' := by
    rintro rfl
    exact hc (by decide)
  rw [comparison_advance hs, leadingMark?_single (by simp [hc]), if_neg hequal] at hmark
  cases hmark

theorem final {r rest : Spaced} (h : Aligned s (r.append rest)) (hseam : r.Seam s.before rest) :
    Aligned (r.final s) rest := by
  induction r generalizing s with
  | last g => exact h
  | next g c v r ih =>
      have hseam : r.Seam (some c) rest := hseam
      have hadvance := h.advance
      rw [(lineSpacer_congr (s := s) (Spaced.leadingMark?_append hseam) g).2] at hadvance
      exact ih hadvance hseam

/-- Behind a stretch that ends with no beginning of a comparison the walk is outside of comparisons. -/
theorem ready_final {r rest : Spaced} (h : Aligned s (r.append rest))
    (hlast : ∀ c, r.lastOf s.before = some c → c ∉ comparisonHeads) (hs : r.letters = [] → s.Ready) :
    (r.final s).Ready := by
  induction r generalizing s with
  | last g => exact hs rfl
  | next g c v r ih =>
      have hlast : ∀ d, r.lastOf (some c) = some d → d ∉ comparisonHeads := hlast
      have hseam : r.Seam (some c) rest := fun d hd hhead => absurd hhead (hlast d hd)
      obtain hstep := (lineSpacer_congr (s := s) (Spaced.leadingMark?_append hseam) g).2
      have hadvance := h.advance
      rw [hstep] at hadvance
      refine ih hadvance hlast fun hnil => ?_
      cases r with
      | last k =>
          have hready := h.ready_advance (hlast c rfl)
          rwa [hstep] at hready
      | next k d vd r => cases hnil

end Aligned

/-! ### What is laid out behind a stretch -/

/-- The walk takes a gap away only before a comma or a colon. -/
theorem between_eq_nil {s : LineState} {g : Gap} {c : Char} {rest : Spaced}
    (h : (lineSpacer.between s g c rest).chars = []) : g.chars = [] ∨ c = ',' ∨ c = ':' := by
  have hcompared : (comparisonSpacer.between s.mark g c rest).chars = [] → g.chars = [] := by
    intro hnil
    match hm : s.mark with
    | .within (n + 1) =>
        rw [hm] at hnil
        exact hnil
    | .within 0 =>
        rw [hm] at hnil
        simp only [comparisonSpacer, markSpacer] at hnil
        split at hnil <;> simp [Gap.cons] at hnil
    | .apart =>
        rw [hm] at hnil
        simp only [comparisonSpacer, markSpacer] at hnil
        split at hnil
        · simp at hnil
        · exact hnil
  simp only [lineSpacer, wordSpacer, LineState.widen, separatorGap] at h
  by_cases hcomma : c = ','
  · exact Or.inr (Or.inl hcomma)
  · by_cases hcolon : c = ':'
    · exact Or.inr (Or.inr hcolon)
    · left
      apply hcompared
      rw [if_neg hcolon, if_neg hcomma] at h
      repeat' split at h
      all_goals first
        | exact h
        | simp at h

/-- A character that may come to stand before what is laid out, or may lose the blanks before it. -/
def isLoose (d : Char) : Bool :=
  isBlank d || [';', ',', ':'].contains d

namespace Laid

variable {added : Nat → Prop} {s : LineState}

/-- A formatted text starts like its source, or with a loose character. -/
theorem loose {t : Spaced} {out : List Char} (h : Laid added s t out) {d : Char}
    (hd : out.head? = some d) : t.text.head? = some d ∨ isLoose d = true := by
  have hspace : isLoose ' ' = true := by decide
  have hfeed : isLoose '\n' = true := by decide
  have hsemicolon : isLoose ';' = true := by decide
  cases h with
  | last hend hbelow =>
      rcases hbelow with rfl | rfl <;> cases hend <;> simp at hd <;> subst hd <;>
        simp [hspace, hfeed, hsemicolon]
  | @stay _ g c v rest out hfeeds hrest =>
      cases hgap : (lineSpacer.between s g c rest).chars with
      | nil =>
          obtain rfl : c = d := by simpa [hgap] using hd
          rcases between_eq_nil hgap with hg | rfl | rfl
          · simp [hg]
          · exact Or.inr (by decide)
          · exact Or.inr (by decide)
      | cons b bs =>
          obtain rfl : b = d := by simpa [hgap] using hd
          have hblank := (lineSpacer.between s g c rest).blank b (by simp [hgap])
          exact Or.inr (by rw [isLoose, hblank]; rfl)
  | feed k hfeeds hend hrest =>
      cases hend <;> simp at hd <;> subst hd <;> simp [hspace, hfeed, hsemicolon]

/-- A stretch in which no row ends is respaced by itself. -/
theorem exists_of_append {r rest : Spaced} {out : List Char} (h : Laid added s (r.append rest) out)
    (hrow : r.Unbroken s.before) (hseam : r.Seam s.before rest) :
    ∃ out', out = ((r.respace lineSpacer s).setLast .none).text ++ out' ∧
      Laid added (r.final s) rest out' := by
  induction r generalizing s out with
  | last g => exact ⟨out, rfl, h⟩
  | next g c v r ih =>
      have hseam : r.Seam (some c) rest := hseam
      obtain ⟨hbetween, hadvance⟩ := lineSpacer_congr (s := s) (Spaced.leadingMark?_append hseam) g
      cases h with
      | stay hfeeds hrest =>
          rw [hadvance] at hrest
          obtain ⟨out', rfl, hlaid⟩ := ih hrest hrow.2 hseam
          refine ⟨out', ?_, hlaid⟩
          rw [hbetween, Spaced.respace, Spaced.setLast, Spaced.text_next]
          simp
      | feed k hfeeds hend hrest => exact absurd hrow.1 hfeeds

end Laid

/-! ### Plain stretches -/

/-- A visible character that no rule of the formatter asks for. -/
def isPlain (c : Char) : Bool :=
  !isBlank c && !(['=', '!', '<', '>', ',', ':', '{', '}', '(', ')'].contains c)

theorem isPlain_iff (c : Char) :
    isPlain c = true ↔ isBlank c = false ∧ c ∉ comparisonHeads ∧ c ≠ ',' ∧ c ≠ ':' ∧ c ≠ '{' ∧
      c ≠ '}' ∧ c ≠ '(' ∧ c ≠ ')' := by
  simp [isPlain, comparisonHeads, and_assoc]

/-- Between plain characters the walk leaves no gap and every gap of none. -/
theorem plain_step {s : LineState} {b c : Char} (hb : isPlain b = true) (hc : isPlain c = true)
    (hbefore : s.before = some b) (hmark : s.mark = .apart) (rest : Spaced) :
    feedsBefore s.before .none c = 0 ∧ lineSpacer.between s .none c rest = .none ∧
      (lineSpacer.advance s .none c rest).mark = .apart := by
  obtain ⟨-, -, hbcomma, hbcolon, hbopen, -, -, hbparen⟩ := (isPlain_iff b).mp hb
  obtain ⟨-, hheads, hccomma, hccolon, -, hcclose, hcparen, -⟩ := (isPlain_iff c).mp hc
  have hequal : c ≠ '=' := by
    rintro rfl
    exact hheads (by decide)
  have hnone : leadingMark? comparisonMarks (c :: rest.text) = none := by
    rw [leadingMark?_single (by simp [hheads]), if_neg hequal]
  refine ⟨?_, ?_, ?_⟩
  · simp [feedsBefore, hbefore, breaksLine, opensLine, closesLine, hbopen, hcclose, Gap.feeds]
  · simp [lineSpacer, wordSpacer, LineState.widen, separatorGap, hbefore, hbcomma, hbcolon, hccomma,
      hccolon, hcparen, opensBlock, hbparen, comparisonSpacer, markSpacer, hmark, hnone]
  · simp [lineSpacer, comparisonSpacer, markSpacer, hmark, hnone]

/-- A plain character stands in the formatted text right behind the plain character before it. -/
theorem Laid.plain_next {added : Nat → Prop} {s : LineState} {b c : Char} {v : isBlank c = false}
    {t : Spaced} {out : List Char} (h : Laid added s (.next .none c v t) out) (hb : isPlain b = true)
    (hc : isPlain c = true) (hbefore : s.before = some b) (hmark : s.mark = .apart) :
    ∃ out', out = c :: out' ∧ Laid added (lineSpacer.advance s .none c t) t out' ∧
      (lineSpacer.advance s .none c t).mark = .apart := by
  obtain ⟨hfeeds, hbetween, hadvance⟩ := plain_step hb hc hbefore hmark t
  cases h with
  | stay _ hrest =>
      rw [hbetween]
      exact ⟨_, rfl, hrest, hadvance⟩
  | feed k hbreak _ _ => exact absurd hfeeds hbreak

/-- A plain stretch is left as it is. -/
theorem plain_stretch {r : Spaced} {s : LineState} {b : Char} (hr : ∀ c ∈ r.text, isPlain c = true)
    (hb : isPlain b = true) (hbefore : s.before = some b) (hmark : s.mark = .apart) :
    r.Unbroken s.before ∧ ((r.respace lineSpacer s).setLast .none).text = r.text ∧
      (r.final s).mark = .apart ∧ ∃ d, r.lastOf s.before = some d ∧ isPlain d = true := by
  induction r generalizing s b with
  | last g =>
      have hg : g.chars = [] := by
        cases hg : g.chars with
        | nil => rfl
        | cons c cs =>
            have hc := ((isPlain_iff c).mp (hr c (by simp [hg]))).1
            rw [g.blank c (by simp [hg])] at hc
            cases hc
      exact ⟨trivial, by simp [Spaced.respace, Spaced.setLast, hg], hmark, b, hbefore, hb⟩
  | next g c v r ih =>
      have hg : g = .none := by
        refine Gap.eq_of_chars ?_
        cases hg : g.chars with
        | nil => rfl
        | cons d ds =>
            have hd := ((isPlain_iff d).mp (hr d (by simp [hg]))).1
            rw [g.blank d (by simp [hg])] at hd
            cases hd
      subst hg
      have hc : isPlain c = true := hr c (by simp)
      obtain ⟨hfeeds, hbetween, hadvance⟩ := plain_step hb hc hbefore hmark r
      obtain ⟨hrow, htext, hfinal, hlast⟩ :=
        ih (s := lineSpacer.advance s .none c r) (fun d hd => hr d (by simp [hd])) hc rfl hadvance
      refine ⟨⟨hfeeds, hrow⟩, ?_, hfinal, hlast⟩
      rw [Spaced.respace, Spaced.setLast, Spaced.text_next, hbetween, htext]
      rfl

/-- A plain stretch stands in the formatted text as it is. -/
theorem Laid.plain {added : Nat → Prop} {s : LineState} {t : Spaced} {out : List Char}
    (h : Laid added s t out) {u v : List Char} (ht : t.text = u ++ v)
    (hu : ∀ c ∈ u, isPlain c = true) {b : Char} (hb : isPlain b = true) (hbefore : s.before = some b)
    (hmark : s.mark = .apart) :
    ∃ rest s' out', rest.text = v ∧ out = u ++ out' ∧ Laid added s' rest out' ∧ s'.mark = .apart ∧
      ∃ d, s'.before = some d ∧ isPlain d = true := by
  obtain ⟨r, rest, rfl, rfl, rfl⟩ := Spaced.exists_append ht fun c hc =>
    ((isPlain_iff c).mp (hu c (List.mem_of_getLast? hc))).1
  obtain ⟨hrow, htext, hfinal, d, hlast, hd⟩ := plain_stretch hu hb hbefore hmark
  have hseam : r.Seam s.before rest := by
    intro c hc hheads
    obtain rfl : d = c := Option.some.inj (hlast.symm.trans hc)
    exact absurd hheads ((isPlain_iff d).mp hd).2.1
  obtain ⟨out', rfl, hlaid⟩ := h.exists_of_append hrow hseam
  rw [htext]
  exact ⟨rest, _, out', rfl, rfl, hlaid, hfinal, d, by rw [Spaced.before_final, hlast], hd⟩

end ScriptLens.Layout
