import ScriptLens.Layout.Spacing
import ScriptLens.Proofs.Layout.Spaced

/-!
# The rules of the formatter as spacers

Applying a rule along a text is the same as walking over the gaps of the text with a spacer.  There are
three kinds of rules: those that set the gap between two given neighbours (`PairRule`), those that set
the gaps around a mark (`markSpacer`), and the one that looks back at a whole word (`wordSpacer`).

Main statements: `PairRule.substitute_text`, `substitute_respaced_text` and `substitute_headWord_text`.
-/

namespace ScriptLens.Text

/-! ### Substitution, one place at a time -/

variable {rule : Rule}

/-- Where a rule takes nothing, the character stays. -/
theorem substituteFrom_pass {before : Option Char} {c : Char} {cs : List Char}
    (h : rule before (c :: cs) = none) :
    substituteFrom rule 0 before (c :: cs) = c :: substituteFrom rule 0 (some c) cs := by
  rw [substituteFrom, h]

/-- Where a rule takes some characters, its replacement stands for them. -/
theorem substituteFrom_take {before : Option Char} {taken text : List Char} (rest : List Char)
    (hne : taken ≠ []) (h : rule before (taken ++ rest) = some ⟨taken.length, text⟩) :
    substituteFrom rule 0 before (taken ++ rest) =
      text ++ substituteFrom rule 0 taken.getLast? rest := by
  cases taken with
  | nil => exact absurd rfl hne
  | cons c cs =>
      rw [List.cons_append] at h ⊢
      rw [substituteFrom, h]
      cases cs with
      | nil => rfl
      | cons d ds =>
          have hskip := substituteFrom_skip rule ds.length (some c) d (ds ++ rest) (by simp)
          have hlast : (d :: (ds ++ rest))[ds.length]? = (c :: d :: ds).getLast? := by
            rw [List.getLast?_cons_cons, List.getLast?_eq_getElem?, ← List.cons_append]
            simp only [List.length_cons, Nat.add_sub_cancel]
            exact List.getElem?_append_left (by simp)
          rw [hlast, List.drop_left] at hskip
          simpa using hskip

/-- A rule that does not look at the character before. -/
def Rule.Forward (rule : Rule) : Prop :=
  ∀ before cs, rule before cs = rule none cs

theorem substituteFrom_forward (hf : rule.Forward) (before : Option Char) (cs : List Char) :
    substituteFrom rule 0 before cs = substitute rule cs := by
  cases cs with
  | nil => rfl
  | cons c cs => rw [substitute, substituteFrom, substituteFrom, hf before]

theorem substitute_pass (hf : rule.Forward) {c : Char} {cs : List Char}
    (h : rule none (c :: cs) = none) : substitute rule (c :: cs) = c :: substitute rule cs := by
  rw [substitute, substituteFrom_pass h, substituteFrom_forward hf]

theorem substitute_take (hf : rule.Forward) {taken text : List Char} (rest : List Char)
    (hne : taken ≠ []) (h : rule none (taken ++ rest) = some ⟨taken.length, text⟩) :
    substitute rule (taken ++ rest) = text ++ substitute rule rest := by
  rw [substitute, substituteFrom_take rest hne h, substituteFrom_forward hf]

/-- Characters stay as long as the rule takes nothing at any of them. -/
theorem substitute_keep (hf : rule.Forward) (kept rest : List Char)
    (h : ∀ c cs, c :: cs <:+ kept → rule none (c :: cs ++ rest) = none) :
    substitute rule (kept ++ rest) = kept ++ substitute rule rest := by
  induction kept with
  | nil => rfl
  | cons c cs ih =>
      have hhere : rule none (c :: (cs ++ rest)) = none := h c cs List.suffix_rfl
      have hthere := ih fun d ds hs => h d ds (hs.trans (List.suffix_cons c cs))
      rw [List.cons_append, substitute_pass hf hhere, hthere, List.cons_append]

end ScriptLens.Text

namespace ScriptLens.Layout

open Text

/-! ### Reading the front of a spaced text -/

namespace Spaced

/-- A text that starts with a visible character has no gap in front. -/
theorem exists_next {t : Spaced} {c : Char} {cs : List Char} (h : t.text = c :: cs)
    (v : isBlank c = false) : ∃ rest, t = .next .none c v rest ∧ rest.text = cs := by
  cases t with
  | last g =>
      have hc : c ∈ g.chars := by rw [← text_last, h]; exact List.mem_cons_self
      rw [g.blank c hc] at v
      exact absurd v (by decide)
  | next g d vd rest =>
      rw [text_next] at h
      cases hg : g.chars with
      | nil =>
          rw [hg] at h
          obtain ⟨rfl, rfl⟩ := List.cons.inj h
          exact ⟨rest, by rw [show g = .none from Gap.eq_of_chars hg], rfl⟩
      | cons b bs =>
          rw [hg] at h
          have hb : b = c := (List.cons.inj h).1
          have hblank := g.blank c (by rw [hg, hb]; exact List.mem_cons_self)
          rw [v] at hblank
          exact absurd hblank (by decide)

/-- A text whose blanks in front are known, up to a visible character. -/
theorem exists_next_gap {t : Spaced} {w cs : List Char} {c : Char} (h : t.text = w ++ c :: cs)
    (hw : ∀ b ∈ w, isBlank b = true) (v : isBlank c = false) :
    ∃ g rest, t = .next g c v rest ∧ g.chars = w ∧ rest.text = cs := by
  have htrim : (t.setLead .none).text = c :: cs := by
    rw [← trimLeft_setLead, h, trimLeft, List.dropWhile_append_of_pos hw]
    simp [v]
  obtain ⟨rest, hnext, hrest⟩ := exists_next htrim v
  have hlead : t.lead.chars = w := by
    have htext := text_eq_lead t
    rw [htrim, h] at htext
    exact (List.append_cancel_right htext).symm
  cases t with
  | last g => simp [setLead] at hnext
  | next g d vd rest' =>
      simp only [setLead, next.injEq, true_and] at hnext
      obtain ⟨rfl, rfl⟩ := hnext
      exact ⟨g, rest', rfl, hlead, hrest⟩

end Spaced

/-! ### Rules between two neighbours -/

/-- A rule that sets the gap between two visible characters wherever they should stand `apart`.  It
takes the first of them and the gap, and may take the second one with them. -/
structure PairRule (rule : Rule) (apart : Char → Char → Bool) (gap : Gap) : Prop where
  forward : rule.Forward
  blank : ∀ c cs, isBlank c = true → rule none (c :: cs) = none
  alone : ∀ c (g : Gap), isBlank c = false → rule none (c :: g.chars) = none
  keep : ∀ c (g : Gap) d cs, isBlank c = false → isBlank d = false → apart c d = false →
    rule none (c :: (g.chars ++ d :: cs)) = none
  part : ∀ c (g : Gap) d cs, isBlank c = false → isBlank d = false → apart c d = true →
    rule none (c :: (g.chars ++ d :: cs)) = some ⟨g.chars.length + 1, c :: gap.chars⟩ ∨
      (rule none (c :: (g.chars ++ d :: cs)) =
          some ⟨g.chars.length + 2, c :: (gap.chars ++ [d])⟩ ∧
        rule none (d :: cs) = none)

/-- Set the gap between two neighbours.  The state is the visible character before. -/
def pairSpacer (apart : Char → Char → Bool) (gap : Gap) : Spacer (Option Char) where
  between before g c _ := if before.any (apart · c) then gap else g
  behind _ g := g
  advance _ _ c _ := some c

namespace PairRule

variable {rule : Rule} {apart : Char → Char → Bool} {gap : Gap}

theorem substitute_gap (h : PairRule rule apart gap) (g : Gap) (cs : List Char) :
    substitute rule (g.chars ++ cs) = g.chars ++ substitute rule cs := by
  refine substitute_keep h.forward g.chars cs ?_
  intro c ds hs
  exact h.blank c _ (g.blank c (hs.subset List.mem_cons_self))

/-- Applying the rule along a text sets the gaps of the text, whatever stands in front. -/
theorem substitute_setLead (h : PairRule rule apart gap) (t : Spaced) (g : Gap) :
    substitute rule (t.setLead g).text =
      ((t.setLead g).respace (pairSpacer apart gap) none).text := by
  induction t generalizing g with
  | last _ =>
      have hgap := h.substitute_gap g []
      simpa [Spaced.setLead, Spaced.respace, pairSpacer, substitute, substituteFrom] using hgap
  | next _ c v rest ih =>
      have hbehind :
          substitute rule (c :: rest.text) =
            c :: (rest.respace (pairSpacer apart gap) (some c)).text := by
        cases rest with
        | last g₁ =>
            have hrest := ih g₁
            rw [Spaced.text_last, substitute_pass h.forward (h.alone c g₁ v)]
            exact congrArg (c :: ·) hrest
        | next g₁ d vd rest₂ =>
            have hfront : substitute rule (d :: rest₂.text) =
                d :: (rest₂.respace (pairSpacer apart gap) (some d)).text := ih .none
            cases hcd : apart c d with
            | false =>
                have hrest := ih g₁
                rw [Spaced.text_next, substitute_pass h.forward (h.keep c g₁ d _ v vd hcd)]
                simpa [Spaced.setLead, Spaced.respace, pairSpacer, hcd] using hrest
            | true =>
                have hgoal : (((Spaced.next g₁ d vd rest₂).respace
                    (pairSpacer apart gap) (some c)).text) =
                      gap.chars ++ d :: (rest₂.respace (pairSpacer apart gap) (some d)).text := by
                  simp [Spaced.respace, pairSpacer, hcd]
                rw [Spaced.text_next, hgoal]
                rcases h.part c g₁ d rest₂.text v vd hcd with hp | ⟨hp, hd⟩
                · have htake := substitute_take h.forward (d :: rest₂.text)
                    (List.cons_ne_nil c g₁.chars) hp
                  rw [List.cons_append] at htake
                  rw [htake, hfront, List.cons_append]
                · -- the second character goes with the first, and the rule would leave it alone
                  have hp' : rule none ((c :: (g₁.chars ++ [d])) ++ rest₂.text) =
                      some ⟨(c :: (g₁.chars ++ [d])).length, c :: (gap.chars ++ [d])⟩ := by
                    simpa using hp
                  have htake := substitute_take h.forward rest₂.text (List.cons_ne_nil c _) hp'
                  rw [substitute_pass h.forward hd] at hfront
                  have hrest := (List.cons.inj hfront).2
                  simpa [hrest] using htake
      rw [Spaced.setLead, Spaced.text_next, h.substitute_gap, hbehind]
      rfl

/-- Applying the rule along a text sets the gaps of the text. -/
theorem substitute_text (h : PairRule rule apart gap) (t : Spaced) :
    substitute rule t.text = (t.respace (pairSpacer apart gap) none).text := by
  simpa using h.substitute_setLead t t.lead

end PairRule

namespace Gap

theorem trimLeft_chars (g : Gap) : trimLeft g.chars = [] := by
  simpa [trimLeft] using g.trimLeft_append []

theorem trimLeft_cons (g : Gap) {d : Char} (cs : List Char) (v : isBlank d = false) :
    trimLeft (g.chars ++ d :: cs) = d :: cs := by
  rw [g.trimLeft_append]
  simp [trimLeft, v]

theorem leadingBlanks_cons (g : Gap) {d : Char} (cs : List Char) (v : isBlank d = false) :
    leadingBlanks (g.chars ++ d :: cs) = g.chars.length := by
  simp [leadingBlanks, List.takeWhile_append_of_pos g.blank, v]

end Gap

/-- A line ends between an opening brace and anything but its closing brace. -/
def opensLine (c d : Char) : Bool :=
  c = '{' && d ≠ '}'

/-- A line ends between anything but an opening brace and a closing brace. -/
def closesLine (c d : Char) : Bool :=
  c ≠ '{' && d = '}'

/-- A block stands apart from the parenthesis before it. -/
def opensBlock (c d : Char) : Bool :=
  c = ')' && d = '{'

theorem afterOpenBrace_pair : PairRule afterOpenBrace opensLine .feed where
  forward _ _ := rfl
  blank c cs hc := by
    have hne : c ≠ '{' := by rintro rfl; exact absurd hc (by decide)
    simp [afterOpenBrace, hne]
  alone c g _ := by
    by_cases h : c = '{'
    · simp [afterOpenBrace, h, g.trimLeft_chars]
    · simp [afterOpenBrace, h]
  keep c g d cs _ vd hcd := by
    by_cases h : c = '{'
    · have hd : d = '}' := by simpa [opensLine, h] using hcd
      subst hd
      simp [afterOpenBrace, h, g.trimLeft_cons cs vd]
    · simp [afterOpenBrace, h]
  part c g d cs _ vd hcd := by
    obtain ⟨rfl, hd⟩ : c = '{' ∧ d ≠ '}' := by simpa [opensLine] using hcd
    left
    simp [afterOpenBrace, g.trimLeft_cons cs vd, g.leadingBlanks_cons cs vd, hd]

theorem beforeCloseBrace_pair : PairRule beforeCloseBrace closesLine .feed where
  forward _ _ := rfl
  blank c cs hc := by simp [beforeCloseBrace, hc]
  alone c g v := by simp [beforeCloseBrace, g.trimLeft_chars]
  keep c g d cs v vd hcd := by
    have hd : ¬c = '{' → d ≠ '}' := by simpa [closesLine] using hcd
    by_cases h : c = '{'
    · simp [beforeCloseBrace, h]
    · simp [beforeCloseBrace, g.trimLeft_cons cs vd, hd h]
  part c g d cs v vd hcd := by
    obtain ⟨hc, rfl⟩ : c ≠ '{' ∧ d = '}' := by simpa [closesLine] using hcd
    left
    simp [beforeCloseBrace, g.trimLeft_cons cs vd, g.leadingBlanks_cons cs vd, v, hc]

theorem beforeBlock_pair : PairRule beforeBlock opensBlock .one where
  forward _ _ := rfl
  blank c cs hc := by
    have hne : c ≠ ')' := by rintro rfl; exact absurd hc (by decide)
    simp [beforeBlock, hne]
  alone c g _ := by
    by_cases h : c = ')'
    · simp [beforeBlock, h, g.trimLeft_chars]
    · simp [beforeBlock, h]
  keep c g d cs _ vd hcd := by
    by_cases h : c = ')'
    · have hd : d ≠ '{' := by simpa [opensBlock, h] using hcd
      simp [beforeBlock, h, g.trimLeft_cons cs vd, hd]
    · simp [beforeBlock, h]
  part c g d cs _ vd hcd := by
    obtain ⟨rfl, rfl⟩ : c = ')' ∧ d = '{' := by simpa [opensBlock] using hcd
    right
    constructor
    · simp [beforeBlock, g.trimLeft_cons cs vd, g.leadingBlanks_cons cs vd]
    · simp [beforeBlock]

/-! ### Rules around a mark -/

/-- Where a walk over a text stands with respect to marks. -/
inductive MarkState where
  /-- Not in a mark and not right behind one. -/
  | apart
  /-- In a mark of which so many characters are still to come; with none to come, right behind it. -/
  | within (left : Nat)

/-- Set the gaps around marks: `front` before a mark and one space behind it. -/
def markSpacer (marks : List (List Char)) (front : Gap) : Spacer MarkState where
  between
    | .within (_ + 1), g, _, _ => g
    | .within 0, _, c, rest =>
        if (leadingMark? marks (c :: rest.text)).isSome then front.cons ' ' (by decide) else .one
    | .apart, g, c, rest => if (leadingMark? marks (c :: rest.text)).isSome then front else g
  behind
    | .within 0, _ => .one
    | _, g => g
  advance
    | .within (n + 1), _, _, _ => .within n
    | _, _, c, rest =>
        match leadingMark? marks (c :: rest.text) with
        | some mark => .within (mark.length - 1)
        | none => .apart

/-- Marks that are not empty and have no blanks in them. -/
def Solid (marks : List (List Char)) : Prop :=
  ∀ mark ∈ marks, mark ≠ [] ∧ ∀ c ∈ mark, isBlank c = false

theorem solid_iff_all (marks : List (List Char)) :
    Solid marks ↔ marks.all (fun mark => !mark.isEmpty && mark.all (!isBlank ·)) = true := by
  simp [Solid]

instance (marks : List (List Char)) : Decidable (Solid marks) :=
  decidable_of_iff _ (solid_iff_all marks).symm

section Marks

variable {marks : List (List Char)} {front : Gap}

theorem mem_of_leadingMark? {cs mark : List Char} (h : leadingMark? marks cs = some mark) :
    mark ∈ marks ∧ ∃ rest, cs = mark ++ rest := by
  refine ⟨List.mem_of_find?_eq_some h, ?_⟩
  have hfront : mark.isPrefixOf cs = true := by
    simpa using List.find?_some h
  obtain ⟨rest, hrest⟩ := List.isPrefixOf_iff_prefix.mp hfront
  exact ⟨rest, hrest.symm⟩

/-- Where no mark starts, the gap stays. -/
theorem respace_apart (g : Gap) {c : Char} (v : isBlank c = false) {rest : Spaced}
    (h : leadingMark? marks (c :: rest.text) = none) :
    (Spaced.next g c v rest).respace (markSpacer marks front) .apart =
      .next g c v (rest.respace (markSpacer marks front) .apart) := by
  simp [Spaced.respace, markSpacer, h]

/-- Where a mark starts, its other characters are still to come. -/
theorem respace_mark (g : Gap) {c : Char} (v : isBlank c = false) {rest : Spaced}
    {inner : List Char} (h : leadingMark? marks (c :: rest.text) = some (c :: inner)) :
    (Spaced.next g c v rest).respace (markSpacer marks front) .apart =
      .next front c v (rest.respace (markSpacer marks front) (.within inner.length)) := by
  simp [Spaced.respace, markSpacer, h]

variable (marks front) in
/-- The characters of a mark stay together. -/
theorem respace_within {inner : List Char} (hv : ∀ c ∈ inner, isBlank c = false) :
    ∀ {t : Spaced} {cs : List Char}, t.text = inner ++ cs →
      ∃ rest : Spaced, rest.text = cs ∧ rest.size ≤ t.size ∧
        (t.respace (markSpacer marks front) (.within inner.length)).text =
          inner ++ (rest.respace (markSpacer marks front) (.within 0)).text := by
  induction inner with
  | nil =>
      intro t cs h
      exact ⟨t, h, Nat.le_refl _, rfl⟩
  | cons c inner ih =>
      intro t cs h
      have vc : isBlank c = false := hv c List.mem_cons_self
      obtain ⟨tail, rfl, htail⟩ := Spaced.exists_next h vc
      obtain ⟨rest, hrest, hsize, htext⟩ := ih (fun d hd => hv d (List.mem_cons_of_mem c hd)) htail
      refine ⟨rest, hrest, Nat.le_succ_of_le hsize, ?_⟩
      simpa [Spaced.respace, markSpacer] using htext

/-- Right behind a mark, one space stands in for the gap. -/
theorem respace_behind (t : Spaced) :
    (t.respace (markSpacer marks front) (.within 0)).text =
      ' ' :: ((t.setLead .none).respace (markSpacer marks front) .apart).text := by
  cases t with
  | last g => simp [Spaced.setLead, Spaced.respace, markSpacer]
  | next g c v rest =>
      cases h : leadingMark? marks (c :: rest.text) <;>
        simp [Spaced.setLead, Spaced.respace, markSpacer, h, Gap.cons]

theorem respaced_forward (render : List Char → List Char) : (respaced marks render).Forward :=
  fun _ _ => rfl

/-- Nothing is taken in a gap that no mark follows. -/
theorem substitute_respaced_keep (render : List Char → List Char) (g : Gap) {c : Char}
    (cs : List Char) (v : isBlank c = false) (h : leadingMark? marks (c :: cs) = none) :
    substitute (respaced marks render) (g.chars ++ c :: cs) =
      g.chars ++ c :: substitute (respaced marks render) cs := by
  have hnone : ∀ w : Gap, respaced marks render none (w.chars ++ c :: cs) = none := by
    intro w
    simp [respaced, w.trimLeft_cons cs v, h]
  rw [substitute_keep (respaced_forward render) g.chars]
  · rw [substitute_pass (respaced_forward render) (hnone .none)]
  · intro d ds hs
    exact hnone ⟨d :: ds, fun b hb => g.blank b (hs.subset hb)⟩

/-- A mark is taken with the gaps around it. -/
theorem substitute_respaced_take (render : List Char → List Char) (g : Gap) {mark : List Char}
    (rest : Spaced) (hne : mark ≠ []) (hv : ∀ c ∈ mark, isBlank c = false)
    (h : leadingMark? marks (mark ++ rest.text) = some mark) :
    substitute (respaced marks render) (g.chars ++ (mark ++ rest.text)) =
      render mark ++ substitute (respaced marks render) (rest.setLead .none).text := by
  obtain ⟨c, cs, rfl⟩ := List.exists_cons_of_ne_nil hne
  have vc : isBlank c = false := hv c List.mem_cons_self
  have hlead := rest.text_eq_lead
  have hwidth : leadingBlanks (g.chars ++ c :: (cs ++ rest.text)) = g.chars.length :=
    g.leadingBlanks_cons _ vc
  have hbehind : leadingBlanks rest.text = rest.lead.chars.length := rest.length_lead
  have hrule : respaced marks render none
      ((g.chars ++ (c :: cs) ++ rest.lead.chars) ++ (rest.setLead .none).text) =
        some ⟨(g.chars ++ (c :: cs) ++ rest.lead.chars).length, render (c :: cs)⟩ := by
    have htext : (g.chars ++ (c :: cs) ++ rest.lead.chars) ++ (rest.setLead .none).text =
        g.chars ++ c :: (cs ++ rest.text) := by
      rw [List.append_assoc, ← hlead]
      simp
    have hmark : leadingMark? marks (c :: (cs ++ rest.text)) = some (c :: cs) := h
    rw [htext]
    simp only [respaced, g.trimLeft_cons _ vc, hmark, hwidth, Option.map_some, List.length_cons,
      List.drop_succ_cons, List.drop_left, hbehind, List.length_append]
  have htake := substitute_take (respaced_forward render) _ (by simp) hrule
  rw [← htake, List.append_assoc, ← hlead, List.append_assoc]

/-- Nothing is taken in a gap that ends the text. -/
theorem substitute_respaced_last (hm : Solid marks) (render : List Char → List Char) (g : Gap) :
    substitute (respaced marks render) g.chars = g.chars := by
  have hend : leadingMark? marks [] = none := by
    refine List.find?_eq_none.mpr ?_
    intro mark hmark
    obtain ⟨c, cs, rfl⟩ := List.exists_cons_of_ne_nil (hm mark hmark).1
    simp
  have hkeep := substitute_keep (respaced_forward render) g.chars [] (by
    intro c cs hs
    have htrim := Gap.trimLeft_chars ⟨c :: cs, fun b hb => g.blank b (hs.subset hb)⟩
    simp only [respaced, List.append_nil] at htrim ⊢
    rw [htrim, hend, Option.map_none])
  simpa [substitute, substituteFrom] using hkeep

/-- Applying a rule around marks along a text sets the gaps of the text, whatever stands in front. -/
theorem substitute_respaced_setLead (hm : Solid marks) :
    ∀ (n : Nat) (t : Spaced) (g : Gap), t.size ≤ n →
      substitute (respaced marks fun mark => front.chars ++ mark ++ [' ']) (t.setLead g).text =
        ((t.setLead g).respace (markSpacer marks front) .apart).text := by
  -- the induction is on the size, since a mark takes several characters in one step
  intro n
  induction n with
  | zero =>
      intro t g hsize
      cases t with
      | last _ => exact substitute_respaced_last hm _ g
      | next _ _ _ _ => exact absurd hsize (by simp [Spaced.size])
  | succ n ih =>
      intro t g hsize
      cases t with
      | last _ => exact substitute_respaced_last hm _ g
      | next _ c v rest =>
          have hrest : rest.size ≤ n := Nat.le_of_succ_le_succ hsize
          cases h : leadingMark? marks (c :: rest.text) with
          | none =>
              have hkeep := substitute_respaced_keep
                (fun mark => front.chars ++ mark ++ [' ']) g rest.text v h
              have hi := ih rest rest.lead hrest
              rw [Spaced.setLead_lead] at hi
              rw [Spaced.setLead, respace_apart g v h, Spaced.text_next, Spaced.text_next, hkeep, hi]
          | some mark =>
              obtain ⟨hmem, cs, hcs⟩ := mem_of_leadingMark? h
              obtain ⟨hne, hv⟩ := hm mark hmem
              obtain ⟨d, inner, rfl⟩ := List.exists_cons_of_ne_nil hne
              rw [List.cons_append] at hcs
              obtain ⟨rfl, hinner⟩ := List.cons.inj hcs
              have hvInner : ∀ b ∈ inner, isBlank b = false :=
                fun b hb => hv b (List.mem_cons_of_mem c hb)
              obtain ⟨below, rfl, hbelow, htext⟩ :=
                respace_within marks front hvInner hinner
              have hmark : leadingMark? marks (c :: inner ++ below.text) = some (c :: inner) := by
                rw [List.cons_append, ← hinner]
                exact h
              have htake := substitute_respaced_take
                (fun mark => front.chars ++ mark ++ [' ']) g below hne hv hmark
              have hi := ih below .none (Nat.le_trans hbelow hrest)
              rw [hi] at htake
              rw [Spaced.setLead, respace_mark g v h, Spaced.text_next, Spaced.text_next, htext,
                respace_behind, hinner, ← List.cons_append, htake]
              simp

variable (front) in
/-- Applying a rule around marks along a text sets the gaps of the text. -/
theorem substitute_respaced_text (hm : Solid marks) (t : Spaced) :
    substitute (respaced marks fun mark => front.chars ++ mark ++ [' ']) t.text =
      (t.respace (markSpacer marks front) .apart).text := by
  simpa using substitute_respaced_setLead hm t.size t t.lead (Nat.le_refl _)

end Marks

/-! ### The rule behind a word -/

/-- A code point of a set lies in one of its ranges. -/
theorem mem_of_covers {ranges : Ranges} {n : Nat} (h : ranges.covers n = true) :
    n ∈ ranges.flatMap fun r => List.range' r.1 (r.2 + 1 - r.1) := by
  induction ranges with
  | nil => simp [Ranges.covers] at h
  | cons r ranges ih =>
      obtain ⟨hlow, hhigh | hrest⟩ : r.1 ≤ n ∧ (n ≤ r.2 ∨ Ranges.covers ranges n = true) := by
        simpa [Ranges.covers] using h
      · refine List.mem_append_left _ (List.mem_range'_1.mpr ⟨hlow, ?_⟩)
        omega
      · exact List.mem_append_right _ (ih hrest)

/-- No blank belongs to a word. -/
theorem not_wordChar_of_blank {c : Char} (h : isBlank c = true) : isWordChar c = false := by
  have hall : ∀ n ∈ blankRanges.flatMap fun r => List.range' r.1 (r.2 + 1 - r.1),
      isWordChar (Char.ofNat n) = false := by
    decide +kernel
  have hc := hall c.toNat (mem_of_covers h)
  rwa [Char.ofNat_toNat] at hc

theorem visible_of_wordChar {c : Char} (h : isWordChar c = true) : isBlank c = false := by
  cases hc : isBlank c with
  | false => rfl
  | true => rw [not_wordChar_of_blank hc] at h; exact absurd h (by decide)

theorem headWords_wordChar : ∀ word ∈ headWords, word ≠ [] ∧ ∀ c ∈ word, isWordChar c = true := by
  have hall : headWords.all (fun word => !word.isEmpty && word.all isWordChar) = true := by
    decide
  simpa using hall

/-- Set the gap between a head word and the parenthesis behind it.  The state is the run of word
characters right before, the last one first. -/
def wordSpacer : Spacer (List Char) where
  between stem g c _ :=
    if c = '(' ∧ stem.reverse ∈ headWords ∧ g.chars.length ≤ 1 then .one else g
  behind _ g := g
  advance stem g c _ :=
    if isWordChar c then (if g.chars = [] then c :: stem else [c]) else []

/-- The rule takes a head word and a parenthesis with at most one blank between them. -/
theorem afterHeadWord_take {word : List Char} (g : Gap) (cs : List Char) (hw : word ∈ headWords)
    (hg : g.chars.length ≤ 1) :
    afterHeadWord none (word ++ (g.chars ++ '(' :: cs)) =
      some ⟨word.length + (g.chars.length + 1), word ++ [' ', '(']⟩ := by
  have hmark : leadingMark? headWords (word ++ (g.chars ++ '(' :: cs)) = some word := by
    simp only [headWords, List.mem_cons, List.not_mem_nil, or_false] at hw
    rcases hw with rfl | rfl | rfl | rfl <;> rfl
  have hwidth : parenthesisWidth? (g.chars ++ '(' :: cs) = some (g.chars.length + 1) := by
    match hchars : g.chars, hg with
    | [], _ => rfl
    | [b], _ =>
        have hb : isBlank b = true := g.blank b (by simp [hchars])
        have hne : b ≠ '(' := by rintro rfl; exact absurd hb (by decide)
        simp [parenthesisWidth?, hb]
  simp [afterHeadWord, hmark, hwidth]

/-- The rule takes nothing else. -/
theorem exists_of_afterHeadWord {before : Option Char} {cs : List Char} {r : Replacement}
    (h : afterHeadWord before cs = some r) :
    before.any isWordChar = false ∧
      ∃ word ∈ headWords, ∃ (g : Gap) (rest : List Char),
        g.chars.length ≤ 1 ∧ cs = word ++ (g.chars ++ '(' :: rest) := by
  unfold afterHeadWord at h
  split at h
  · exact absurd h (by simp)
  · rename_i hbefore
    refine ⟨by simpa using hbefore, ?_⟩
    obtain ⟨word, hword, h⟩ := Option.bind_eq_some_iff.mp h
    obtain ⟨width, hwidth, -⟩ := Option.bind_eq_some_iff.mp h
    obtain ⟨hmem, rest, rfl⟩ := mem_of_leadingMark? hword
    rw [List.drop_left] at hwidth
    refine ⟨word, hmem, ?_⟩
    unfold parenthesisWidth? at hwidth
    split at hwidth
    · exact ⟨.none, _, by simp, rfl⟩
    · rename_i b cs _ _
      split at hwidth
      · rename_i hb
        exact ⟨Gap.none.cons b hb, cs, by simp [Gap.cons], rfl⟩
      · exact absurd hwidth (by simp)
    · exact absurd hwidth (by simp)

/-- A word right behind the stem only makes the stem longer. -/
theorem respace_stem {word : List Char} (hw : ∀ c ∈ word, isWordChar c = true) :
    ∀ {t : Spaced} {cs : List Char} (stem : List Char), t.text = word ++ cs →
      ∃ rest : Spaced, rest.text = cs ∧ rest.size ≤ t.size ∧
        (t.respace wordSpacer stem).text =
          word ++ (rest.respace wordSpacer (word.reverse ++ stem)).text := by
  induction word with
  | nil =>
      intro t cs stem h
      exact ⟨t, h, Nat.le_refl _, rfl⟩
  | cons c word ih =>
      intro t cs stem h
      have hc : isWordChar c = true := hw c List.mem_cons_self
      have hne : c ≠ '(' := by rintro rfl; exact absurd hc (by decide)
      obtain ⟨tail, rfl, htail⟩ := Spaced.exists_next h (visible_of_wordChar hc)
      obtain ⟨rest, hrest, hsize, htext⟩ :=
        ih (fun d hd => hw d (List.mem_cons_of_mem c hd)) (c :: stem) htail
      refine ⟨rest, hrest, Nat.le_succ_of_le hsize, ?_⟩
      simpa [Spaced.respace, wordSpacer, hc, hne] using htext

/-- Blanks stay, and behind them no word is under way. -/
theorem substituteFrom_headWord_gap (g : Gap) (before : Option Char) (cs : List Char) :
    ∃ before', (before' = if g.chars = [] then before else g.chars.getLast?) ∧
      substituteFrom afterHeadWord 0 before (g.chars ++ cs) =
        g.chars ++ substituteFrom afterHeadWord 0 before' cs := by
  refine ⟨_, rfl, ?_⟩
  obtain ⟨chars, hblank⟩ := g
  induction chars generalizing before with
  | nil => simp
  | cons b bs ih =>
      have hb : isBlank b = true := hblank b List.mem_cons_self
      have hnone : afterHeadWord before (b :: (bs ++ cs)) = none := by
        cases hrule : afterHeadWord before (b :: (bs ++ cs)) with
        | none => rfl
        | some r =>
            obtain ⟨-, word, hword, g, rest, -, htext⟩ := exists_of_afterHeadWord hrule
            obtain ⟨hne, hchars⟩ := headWords_wordChar word hword
            obtain ⟨c, inner, rfl⟩ := List.exists_cons_of_ne_nil hne
            have hbc : b = c := (List.cons.inj htext).1
            have hw := hchars c List.mem_cons_self
            rw [← hbc, not_wordChar_of_blank hb] at hw
            exact absurd hw (by decide)
      have hrest := ih (some b) fun c hc => hblank c (List.mem_cons_of_mem b hc)
      rw [List.cons_append, substituteFrom_pass hnone, hrest]
      cases bs <;> simp

theorem substituteFrom_headWord_last (g : Gap) (before : Option Char) :
    substituteFrom afterHeadWord 0 before g.chars = g.chars := by
  obtain ⟨before', -, hgap⟩ := substituteFrom_headWord_gap g before []
  simpa [substituteFrom] using hgap

/-- At the start of a word the character before makes no difference. -/
theorem afterHeadWord_start {before : Option Char} (h : before.any isWordChar = false)
    (cs : List Char) : afterHeadWord before cs = afterHeadWord none cs := by
  simp [afterHeadWord, h]

/-- Where the rule takes a word and its parenthesis, the walk over the gaps passes the same word and
sets the same gap. -/
theorem respace_headWord {before : Option Char} {c : Char} {rest : Spaced} {r : Replacement}
    (h : afterHeadWord before (c :: rest.text) = some r) :
    ∃ (shown : List Char) (below : Spaced), below.size ≤ rest.size ∧
      substituteFrom afterHeadWord 0 before (c :: rest.text) =
        shown ++ substituteFrom afterHeadWord 0 (some '(') below.text ∧
      isWordChar c = true ∧
      c :: (rest.respace wordSpacer [c]).text = shown ++ (below.respace wordSpacer []).text := by
  obtain ⟨hstart, word, hword, g, cs, hg, htext⟩ := exists_of_afterHeadWord h
  obtain ⟨hne, hchars⟩ := headWords_wordChar word hword
  obtain ⟨d, inner, rfl⟩ := List.exists_cons_of_ne_nil hne
  rw [List.cons_append] at htext
  obtain ⟨rfl, hinner⟩ := List.cons.inj htext
  obtain ⟨paren, hparen, hsize, hstem⟩ :=
    respace_stem (fun b hb => hchars b (List.mem_cons_of_mem c hb)) [c] hinner
  obtain ⟨g', below, rfl, hg', rfl⟩ := Spaced.exists_next_gap hparen g.blank (by decide)
  refine ⟨c :: inner ++ [' ', '('], below, ?_, ?_, hchars c List.mem_cons_self, ?_⟩
  · exact Nat.le_of_succ_le hsize
  · have hrule : afterHeadWord before ((c :: inner ++ (g.chars ++ ['('])) ++ below.text) =
        some ⟨(c :: inner ++ (g.chars ++ ['('])).length, c :: inner ++ [' ', '(']⟩ := by
      rw [afterHeadWord_start hstart]
      simpa [Nat.add_comm, Nat.add_left_comm] using afterHeadWord_take g below.text hword hg
    have hlast : (c :: inner ++ (g.chars ++ ['('])).getLast? = some '(' := by
      rw [← List.append_assoc, List.getLast?_concat]
    have htake := substituteFrom_take below.text (by simp) hrule
    rw [hlast] at htake
    rw [hinner]
    simpa using htake
  · have hfits : g'.chars.length ≤ 1 := by rw [hg']; exact hg
    have hlist : inner.reverse ++ [c] = (c :: inner).reverse := by simp
    have hopen : isWordChar '(' = false := by decide
    rw [hstem, hlist]
    simp [Spaced.respace, wordSpacer, hword, hfits, hopen]

/-- Applying the rule behind a word along a text sets the gaps of the text.  A stem that is under way
has to be one at whose front the rule took nothing. -/
theorem substituteFrom_headWord_text :
    ∀ (n : Nat) (t : Spaced) (stem : List Char) (before : Option Char), t.size ≤ n →
      before.any isWordChar = !stem.isEmpty →
      (stem ≠ [] → afterHeadWord none (stem.reverse ++ t.text) = none) →
      substituteFrom afterHeadWord 0 before t.text = (t.respace wordSpacer stem).text := by
  -- the induction is on the size, since the rule takes a word and its parenthesis in one step
  intro n
  induction n with
  | zero =>
      intro t stem before hsize hbefore hstem
      cases t with
      | last g => exact substituteFrom_headWord_last g before
      | next _ _ _ _ => exact absurd hsize (by simp [Spaced.size])
  | succ n ih =>
      intro t stem before hsize hbefore hstem
      cases t with
      | last g => exact substituteFrom_headWord_last g before
      | next g c v rest =>
          have hrest : rest.size ≤ n := Nat.le_of_succ_le_succ hsize
          obtain ⟨before', hbefore', hgap⟩ :=
            substituteFrom_headWord_gap g before (c :: rest.text)
          -- the stem that is still under way behind the gap
          obtain ⟨live, hlive⟩ : ∃ live, live = if g.chars = [] then stem else [] := ⟨_, rfl⟩
          have hany : before'.any isWordChar = !live.isEmpty := by
            subst hbefore' hlive
            split
            · exact hbefore
            · rename_i hne
              rw [List.getLast?_eq_some_getLast hne]
              simpa using not_wordChar_of_blank (g.blank _ (List.getLast_mem hne))
          have hadvance : wordSpacer.advance stem g c rest =
              if isWordChar c then c :: live else [] := by
            subst hlive
            by_cases hg : g.chars = [] <;> simp [wordSpacer, hg]
          rw [Spaced.text_next, hgap, Spaced.respace, hadvance, Spaced.text_next]
          cases hrule : afterHeadWord before' (c :: rest.text) with
          | none =>
              have hlook : live ≠ [] → afterHeadWord none (live.reverse ++ c :: rest.text) = none := by
                subst hlive
                split
                · rename_i hg
                  simpa [hg] using hstem
                · simp
              have hkept : wordSpacer.between stem g c rest = g := by
                refine if_neg ?_
                rintro ⟨rfl, hword, hfits⟩
                have hne : stem ≠ [] := by
                  rintro rfl
                  exact (headWords_wordChar _ hword).1 rfl
                have htaken := afterHeadWord_take g rest.text hword hfits
                rw [← Spaced.text_next g '(' v rest, hstem hne] at htaken
                exact absurd htaken (by simp)
              rw [substituteFrom_pass hrule, hkept, ih rest _ (some c) hrest]
              · cases hc : isWordChar c <;> simp [hc]
              · intro hne
                have hc : isWordChar c = true := by
                  cases hc : isWordChar c with
                  | true => rfl
                  | false => simp [hc] at hne
                rw [if_pos hc, List.reverse_cons, List.append_assoc, List.singleton_append]
                cases live with
                | nil => rw [← afterHeadWord_start (by simpa using hany)]; exact hrule
                | cons d ds => exact hlook (by simp)
          | some r =>
              obtain ⟨shown, below, hbelow, hleft, hc, hright⟩ := respace_headWord hrule
              have hstart := (exists_of_afterHeadWord hrule).1
              rw [hany] at hstart
              have hnil : live = [] := by simpa using hstart
              have hne : c ≠ '(' := by rintro rfl; exact absurd hc (by decide)
              have hi := ih below [] (some '(') (Nat.le_trans hbelow hrest)
                (by decide) (by simp)
              rw [hleft, hi, ← hright, if_pos hc, hnil]
              simp [wordSpacer, hne]

/-- Applying the rule behind a word along a text sets the gaps of the text. -/
theorem substitute_headWord_text (t : Spaced) :
    substitute afterHeadWord t.text = (t.respace wordSpacer []).text :=
  substituteFrom_headWord_text t.size t [] none (Nat.le_refl _) rfl (by simp)

end ScriptLens.Layout
