import ScriptLens.Proofs.Layout.Idempotence

/-!
# A formatted text beside its source

The formatter finds rows, finishes each of them and indents them.  Seen from the visible characters of the
source, all of that happens in the gaps between them: a gap inside a row becomes what the spacing rules make
of it, and a gap between two rows becomes a line feed with the indentation behind it, and perhaps a semicolon
before it.  `Laid` says so one visible character at a time.

Main statement: `laid_formatChars`.
-/

namespace ScriptLens.Layout

open Text

/-! ### Joining spaced texts -/

/-- What a walk sees of the text behind a character is the mark that starts there. -/
theorem lineSpacer_congr {s : LineState} {c : Char} {rest rest' : Spaced}
    (h : leadingMark? comparisonMarks (c :: rest'.text) = leadingMark? comparisonMarks (c :: rest.text))
    (g : Gap) :
    lineSpacer.between s g c rest' = lineSpacer.between s g c rest ∧
      lineSpacer.advance s g c rest' = lineSpacer.advance s g c rest := by
  have hcongr := comparison_congr (m := s.mark) (Or.inr h) g g
  have hwiden : s.widen g c rest' = s.widen g c rest := by
    simp only [LineState.widen, hcongr.1]
  constructor
  · simp only [lineSpacer, hwiden]
    rfl
  · rw [lineSpacer_advance, lineSpacer_advance, hwiden, hcongr.2]
    rfl

namespace Spaced

/-- A text with another one in place of the gap behind it. -/
def append : Spaced → Spaced → Spaced
  | .last _, rest => rest
  | .next g c v t, rest => .next g c v (t.append rest)

@[simp] theorem append_last (g : Gap) (rest : Spaced) : (last g).append rest = rest := rfl

@[simp] theorem append_next (g : Gap) (c : Char) (v : isBlank c = false) (t rest : Spaced) :
    (next g c v t).append rest = next g c v (t.append rest) := rfl

theorem text_append (t rest : Spaced) :
    (t.append rest).text = (t.setLast .none).text ++ rest.text := by
  induction t with
  | last g => rfl
  | next g c v t ih => simp [setLast, ih]

theorem size_append (t rest : Spaced) : (t.append rest).size = t.size + rest.size := by
  induction t with
  | last g => simp [size]
  | next g c v t ih =>
      simp only [append_next, size, ih]
      omega

/-- The state of a walk behind a text. -/
def final (s : LineState) : Spaced → LineState
  | .last _ => s
  | .next g c _ rest => rest.final (lineSpacer.advance s g c rest)

/-- The last visible character, if there is one, or else the one before the text. -/
def lastOf (before : Option Char) : Spaced → Option Char
  | .last _ => before
  | .next _ c _ rest => rest.lastOf (some c)

theorem before_final (t : Spaced) (s : LineState) : (t.final s).before = t.lastOf s.before := by
  induction t generalizing s with
  | last g => rfl
  | next g c v rest ih => exact ih _

/-- No comparison goes over the seam between a text and the one behind it. -/
def Seam (before : Option Char) (t rest : Spaced) : Prop :=
  ∀ c, t.lastOf before = some c → c ∈ comparisonHeads → rest.text.head? ≠ some '='

/-- A seam does not change which mark starts at the character before the text. -/
theorem leadingMark?_append {c : Char} {t rest : Spaced} (h : Seam (some c) t rest) :
    leadingMark? comparisonMarks (c :: (t.append rest).text) =
      leadingMark? comparisonMarks (c :: t.text) := by
  refine leadingMark?_congr fun hc => ?_
  cases t with
  | last g =>
      have hgap : g.chars.head? ≠ some '=' := by
        intro hhead
        have hblank := g.blank '=' (List.mem_of_head? hhead)
        exact absurd hblank (by decide)
      simp [h c rfl hc, hgap]
  | next g d v t =>
      rw [append_next, text_next, text_next]
      cases g.chars <;> simp

/-- A walk over joined texts is a walk over one after the other. -/
theorem respace_append {s : LineState} {t rest : Spaced} (h : Seam s.before t rest) :
    (t.append rest).respace lineSpacer s =
      (t.respace lineSpacer s).append (rest.respace lineSpacer (t.final s)) := by
  induction t generalizing s with
  | last g => rfl
  | next g c v t ih =>
      have hseam : Seam (some c) t rest := h
      obtain ⟨hbetween, hadvance⟩ := lineSpacer_congr (s := s) (leadingMark?_append hseam) g
      have hrest := ih (s := lineSpacer.advance s g c t) hseam
      rw [append_next, respace, respace, append_next, hbetween, hadvance, hrest, final]

@[simp] theorem setLast_setLast (t : Spaced) (g h : Gap) : (t.setLast g).setLast h = t.setLast h := by
  induction t with
  | last _ => rfl
  | next _ c v t ih => simp [setLast, ih]

@[simp] theorem setLast_append (t rest : Spaced) (g : Gap) :
    (t.append rest).setLast g = t.append (rest.setLast g) := by
  induction t with
  | last _ => rfl
  | next _ c v t ih => simp [setLast, ih]

end Spaced

/-! ### Rows in a spaced text -/

/-- The number of line feeds that count between a visible character and the next. -/
def feedsBefore (before : Option Char) (g : Gap) (c : Char) : Nat :=
  if before.any (breaksLine · c) then 1 else g.feeds

theorem feeds_between (before : Option Char) (g : Gap) (c : Char) (rest : Spaced) :
    (breakSpacer.between before g c rest).feeds = feedsBefore before g c := by
  simp only [breakSpacer, pairSpacer, feedsBefore]
  split <;> rfl

/-- A gap that ends no row stays as it is when lines are broken. -/
theorem between_of_feeds {before : Option Char} {g : Gap} {c : Char}
    (h : feedsBefore before g c = 0) (rest : Spaced) : breakSpacer.between before g c rest = g := by
  unfold feedsBefore at h
  split at h
  · cases h
  · rename_i hbreaks
    simp [breakSpacer, pairSpacer, hbreaks]

/-- No row ends inside a text. -/
def Spaced.Unbroken : (before : Option Char) → Spaced → Prop
  | _, .last _ => True
  | before, .next g c _ rest => feedsBefore before g c = 0 ∧ rest.Unbroken (some c)

/-- The rows behind the end of a row. -/
def Spaced.rowsBelow (before : Option Char) : Spaced → List (List Char)
  | .last g => if g.feeds = 0 then [] else [[]]
  | .next g c _ rest =>
      (if feedsBefore before g c = 1 then [] else [[]]) ++
        (rest.respace breakSpacer (some c)).rowsFrom [c]

/-- A text where a row has ended. -/
def Spaced.EndsRow (before : Option Char) : Spaced → Prop
  | .last _ => True
  | .next g c _ _ => feedsBefore before g c ≠ 0

/-- The first row of a text and what is behind it. -/
theorem Spaced.exists_row (t : Spaced) (before : Option Char) (current : List Char) :
    ∃ r rest : Spaced, t = r.append rest ∧ r.Unbroken before ∧ rest.EndsRow (r.lastOf before) ∧
      (t.respace breakSpacer before).rowsFrom current =
        (current ++ r.text) :: rest.rowsBelow (r.lastOf before) := by
  induction t generalizing before current with
  | last g =>
      refine ⟨.last .none, .last g, rfl, trivial, trivial, ?_⟩
      have hbehind : breakSpacer.behind before g = g := rfl
      rw [respace, rowsFrom, hbehind, rowsBelow]
      split <;> simp
  | next g c v t ih =>
      by_cases hfeeds : feedsBefore before g c = 0
      · obtain ⟨r, rest, rfl, hunbroken, hends, hrows⟩ := ih (some c) (current ++ g.chars ++ [c])
        refine ⟨.next g c v r, rest, rfl, ⟨hfeeds, hunbroken⟩, hends, ?_⟩
        have hgap : g.feeds = 0 := by
          rw [← between_of_feeds hfeeds (r.append rest), feeds_between, hfeeds]
        have hadvance : breakSpacer.advance before g c (r.append rest) = some c := rfl
        rw [respace, rowsFrom, between_of_feeds hfeeds, if_pos hgap, hadvance, hrows, lastOf]
        simp
      · refine ⟨.last .none, .next g c v t, rfl, trivial, hfeeds, ?_⟩
        have hadvance : breakSpacer.advance before g c t = some c := rfl
        rw [respace, rowsFrom, feeds_between, if_neg hfeeds, hadvance, rowsBelow, lastOf]
        split <;> simp

/-! ### Finished rows in a spaced text -/

/-- What may be written behind the last visible character of a row: a semicolon, if one is added, and a
space before it where the spacing rules ask for one. -/
inductive RowEnd (added : Prop) : List Char → Prop
  | bare : RowEnd added []
  | semicolon (h : added) : RowEnd added [';']
  | spaced (h : added) : RowEnd added [' ', ';']

/-- The state of a walk behind the first visible character of a row. -/
def LineState.first (c : Char) (rest : Spaced) : LineState :=
  lineSpacer.advance .start .none c rest

/-- The gap before a semicolon is empty or a space. -/
theorem between_semicolon (s : LineState) (rest : Spaced) :
    (lineSpacer.between s .none ';' rest).chars = [] ∨
      (lineSpacer.between s .none ';' rest).chars = [' '] := by
  have hmark : leadingMark? comparisonMarks (';' :: rest.text) = none := by
    rw [leadingMark?_single (by simp [comparisonHeads])]
    rfl
  have hcompared : (comparisonSpacer.between s.mark .none ';' rest).chars = [] ∨
      (comparisonSpacer.between s.mark .none ';' rest).chars = [' '] := by
    obtain ⟨m, before, stem⟩ := s
    cases m with
    | apart => simp [comparisonSpacer, markSpacer, hmark]
    | within n => cases n <;> simp [comparisonSpacer, markSpacer, hmark]
  simp only [lineSpacer, wordSpacer, LineState.widen, separatorGap]
  by_cases hcolon : s.before = some ':' <;> by_cases hcomma : s.before = some ',' <;>
    by_cases hblock : s.before.any (opensBlock · ';') <;>
    simp [hcolon, hcomma, hblock, hcompared]

theorem normalize_row {c : Char} (v : isBlank c = false) (r : Spaced) :
    normalize (c :: r.text) = c :: ((r.respace lineSpacer (.first c r)).setLast .none).text := by
  have hrow := normalize_text (.next .none c v r)
  rw [Spaced.text_next, Gap.chars_none, List.nil_append] at hrow
  rw [hrow]
  simp [Spaced.respace, Spaced.trim, Spaced.setLead, Spaced.setLast, LineState.first]

/-- A semicolon behind a row with canonical spacing changes no gap of the row. -/
theorem normalize_row_semicolon {c : Char} (v : isBlank c = false) (r : Spaced) :
    ∃ R : Spaced, normalize (c :: r.text) = c :: R.text ∧
      normalize (c :: R.text ++ [';']) = c :: R.text ++
        ((lineSpacer.between (R.final (.first c R)) .none ';' (.last .none)).chars ++ [';']) := by
  have hsemicolon : isBlank ';' = false := by decide
  let tail : Spaced := .next .none ';' hsemicolon (.last .none)
  generalize hR : (r.respace lineSpacer (.first c r)).setLast .none = R
  have hnormal : normalize (c :: r.text) = c :: R.text := by rw [normalize_row v, hR]
  have hlast : R.setLast .none = R := by rw [← hR, Spaced.setLast_setLast]
  -- the row has canonical spacing already, so only the gap before the semicolon is new
  have hagain : ((R.respace lineSpacer (.first c R)).setLast .none).text = R.text := by
    have htwice := normalize_normalize (c :: r.text)
    rw [hnormal, normalize_row v] at htwice
    exact (List.cons.inj htwice).2
  have hseam : ∀ before, R.Seam before tail := by
    intro before d _ _
    exact fun h => absurd h (by simp [tail])
  have hfirst : LineState.first c (R.append tail) = .first c R :=
    (lineSpacer_congr (Spaced.leadingMark?_append (hseam (some c))) .none).2
  have hrow : c :: R.text ++ [';'] = c :: (R.append tail).text := by
    rw [Spaced.text_append, hlast]
    rfl
  refine ⟨R, hnormal, ?_⟩
  rw [hrow, normalize_row v, hfirst, Spaced.respace_append (hseam _), Spaced.setLast_append,
    Spaced.text_append, hagain]
  rfl

/-- A finished row is the row with canonical spacing, and perhaps a semicolon behind it. -/
theorem finishLine_row {c : Char} (v : isBlank c = false) (r : Spaced) :
    ∃ ending, RowEnd (lacksSemicolon (normalize (c :: r.text)) = true) ending ∧
      finishLine (c :: r.text) =
        c :: ((r.respace lineSpacer (.first c r)).setLast .none).text ++ ending := by
  rw [← normalize_row v]
  by_cases hlacks : lacksSemicolon (normalize (c :: r.text)) = true
  · obtain ⟨R, hnormal, hfinished⟩ := normalize_row_semicolon v r
    rw [finishLine, if_pos hlacks, hnormal, hfinished]
    refine ⟨_, ?_, rfl⟩
    rcases between_semicolon (R.final (.first c R)) (.last .none) with h | h
    · rw [h]
      exact .semicolon (hnormal ▸ hlacks)
    · rw [h]
      exact .spaced (hnormal ▸ hlacks)
  · refine ⟨[], .bare, ?_⟩
    rw [finishLine, if_neg hlacks, List.append_nil]

/-! ### Places of added semicolons -/

/-- Where the formatter adds semicolons to rows, by the number of visible characters below the row. -/
def semicolonPlaces : List (List Char) → List Nat
  | [] => []
  | row :: rest =>
      if row.isEmpty = false ∧ lacksSemicolon (normalize row) = true then
        (visible rest.flatten).length :: semicolonPlaces rest
      else semicolonPlaces rest

theorem mem_semicolonPlaces_cons {m : Nat} {rest : List (List Char)} (row : List Char)
    (h : m ∈ semicolonPlaces rest) : m ∈ semicolonPlaces (row :: rest) := by
  rw [semicolonPlaces]
  split
  · exact List.mem_cons_of_mem _ h
  · exact h

theorem mem_semicolonPlaces_append {m : Nat} {rest : List (List Char)} (above : List (List Char))
    (h : m ∈ semicolonPlaces rest) : m ∈ semicolonPlaces (above ++ rest) := by
  induction above with
  | nil => exact h
  | cons row above ih => exact mem_semicolonPlaces_cons row ih

theorem Spaced.length_letters (t : Spaced) : t.letters.length = t.size := by
  induction t with
  | last g => rfl
  | next g c v rest ih => simp [letters, size, ih]

/-- The visible characters of the rows are those of the text. -/
theorem Spaced.visible_rowsFrom (t : Spaced) (current : List Char) :
    visible (t.rowsFrom current).flatten = visible current ++ t.letters := by
  induction t generalizing current with
  | last g =>
      rw [rowsFrom]
      split <;> simp [letters]
  | next g c v rest ih =>
      have hc : visible [c] = [c] := visible_cons v []
      rw [rowsFrom]
      split
      · rw [ih]
        simp [letters, hc]
      · split <;> simp [letters, hc, ih]

theorem Spaced.visible_rowsBelow (t : Spaced) (before : Option Char) :
    visible (t.rowsBelow before).flatten = t.letters := by
  cases t with
  | last g =>
      rw [rowsBelow]
      split <;> rfl
  | next g c v rest =>
      have hc : visible [c] = [c] := visible_cons v []
      rw [rowsBelow]
      split <;> simp [visible_rowsFrom, letters, hc]

/-! ### The formatted text -/

/-- What the formatter makes of the text behind a visible character.  The state is that of a walk over the row
so far, and semicolons are written only at the places that are `added`. -/
inductive Laid (added : Nat → Prop) : LineState → Spaced → List Char → Prop
  | last {s : LineState} {g : Gap} {ending below : List Char} (hend : RowEnd (added 0) ending)
      (hbelow : below = [] ∨ below = ['\n']) :
      Laid added s (.last g) (ending ++ below)
  | stay {s : LineState} {g : Gap} {c : Char} {v : isBlank c = false} {rest : Spaced}
      {out : List Char} (hfeeds : feedsBefore s.before g c = 0)
      (hrest : Laid added (lineSpacer.advance s g c rest) rest out) :
      Laid added s (.next g c v rest) ((lineSpacer.between s g c rest).chars ++ c :: out)
  | feed {s : LineState} {g : Gap} {c : Char} {v : isBlank c = false} {rest : Spaced}
      {ending out : List Char} (k : Nat) (hfeeds : feedsBefore s.before g c ≠ 0)
      (hend : RowEnd (added (rest.size + 1)) ending) (hrest : Laid added (.first c rest) rest out) :
      Laid added s (.next g c v rest)
        (ending ++ '\n' :: ((if feedsBefore s.before g c = 1 then [] else ['\n']) ++
          (List.replicate k ' ' ++ c :: out)))

/-- What stands before a row is indentation, or a blank line and indentation. -/
theorem mem_indentation {p : Prop} [Decidable p] {k : Nat} {d : Char}
    (h : d ∈ (if p then [] else ['\n']) ++ List.replicate k ' ') : d = '\n' ∨ d = ' ' := by
  rcases List.mem_append.mp h with h | h
  · split at h <;> simp at h
    exact Or.inl h
  · exact Or.inr (List.mem_replicate.mp h).2

theorem RowEnd.imp {a b : Prop} {ending : List Char} (h : RowEnd a ending) (himp : a → b) :
    RowEnd b ending := by
  cases h with
  | bare => exact .bare
  | semicolon h => exact .semicolon (himp h)
  | spaced h => exact .spaced (himp h)

namespace Laid

variable {added : Nat → Prop} {s : LineState}

theorem imp {added' : Nat → Prop} {t : Spaced} {out : List Char} (h : Laid added s t out)
    (himp : ∀ m, added m → added' m) : Laid added' s t out := by
  induction h with
  | last hend hbelow => exact .last (hend.imp (himp _)) hbelow
  | stay hfeeds _ ih => exact .stay hfeeds ih
  | feed k hfeeds hend _ ih => exact .feed k hfeeds (hend.imp (himp _)) ih

/-- A row is laid out by walking over it. -/
theorem of_row {r rest : Spaced} {out : List Char} (hrow : r.Unbroken s.before)
    (hseam : r.Seam s.before rest) (h : Laid added (r.final s) rest out) :
    Laid added s (r.append rest) (((r.respace lineSpacer s).setLast .none).text ++ out) := by
  induction r generalizing s with
  | last g => exact h
  | next g c v r ih =>
      have hseam : r.Seam (some c) rest := hseam
      obtain ⟨hbetween, hadvance⟩ := lineSpacer_congr (s := s) (Spaced.leadingMark?_append hseam) g
      have hrest := ih (s := lineSpacer.advance s g c r) hrow.2 hseam h
      rw [← hadvance] at hrest
      rw [Spaced.append_next, Spaced.respace, Spaced.setLast, Spaced.text_next, List.append_assoc,
        List.cons_append, ← hbetween, ← hadvance]
      exact .stay hrow.1 hrest

end Laid

/-- No comparison goes over the end of a row. -/
theorem Spaced.EndsRow.seam {before : Option Char} {r rest : Spaced}
    (h : rest.EndsRow (r.lastOf before)) : r.Seam before rest := by
  intro c hlast hc hequals
  obtain ⟨g, v, rest, rfl, hg⟩ := (head?_text_eq_iff _).mp hequals
  refine h ?_
  have hbrace : c ≠ '{' := by
    rintro rfl
    exact absurd hc (by decide)
  have hbreaks : breaksLine c '=' = false := by simp [breaksLine, opensLine, closesLine, hbrace]
  simp [feedsBefore, hlast, hbreaks, Gap.feeds, hg]

theorem Spaced.rowsFrom_ne_nil (t : Spaced) (current : List Char) : t.rowsFrom current ≠ [] := by
  induction t generalizing current with
  | last g =>
      rw [rowsFrom]
      split <;> simp
  | next g c v rest ih =>
      rw [rowsFrom]
      split
      · exact ih _
      · split <;> simp

theorem indent_cons (tab level : Nat) {row : List Char} (h : row ≠ []) (rest : List (List Char)) :
    ∃ k level', indent tab level (row :: rest) =
      (List.replicate k ' ' ++ row) :: indent tab level' rest ∧ (level = 0 → k = 0) := by
  rw [indent, if_neg (by simpa using h)]
  refine ⟨_, _, rfl, ?_⟩
  rintro rfl
  split <;> simp

theorem indent_ne_nil (tab level : Nat) {ls : List (List Char)} (h : ls ≠ []) :
    indent tab level ls ≠ [] := by
  obtain ⟨row, rest, rfl⟩ := List.exists_cons_of_ne_nil h
  rw [indent]
  split <;> simp

/-- Indented rows that start at a visible character are laid out. -/
theorem exists_laid (tab : Nat) (t : Spaced) (level : Nat) {c : Char} (v : isBlank c = false) :
    ∃ k out, unlines (indent tab level
        (((t.respace breakSpacer (some c)).rowsFrom [c]).map finishRow)) =
          List.replicate k ' ' ++ c :: out ∧ (level = 0 → k = 0) ∧
      Laid (· ∈ semicolonPlaces ((t.respace breakSpacer (some c)).rowsFrom [c])) (.first c t) t out := by
  induction hn : t.size using Nat.strongRecOn generalizing t level c with
  | ind n ih =>
      subst hn
      obtain ⟨r, rest, rfl, hrow, hends, hrows⟩ := t.exists_row (some c) [c]
      have hseam := hends.seam
      rw [hrows]
      generalize hbelow : rest.rowsBelow (r.lastOf (some c)) = below
      have hcount : (visible below.flatten).length = rest.size := by
        rw [← hbelow, Spaced.visible_rowsBelow, Spaced.length_letters]
      obtain ⟨ending, hend, hfinish⟩ := finishLine_row v r
      replace hend : RowEnd (rest.size ∈ semicolonPlaces ((c :: r.text) :: below)) ending := by
        refine hend.imp fun hlacks => ?_
        rw [semicolonPlaces, if_pos ⟨rfl, hlacks⟩, hcount]
        exact List.mem_cons_self
      have hne : finishLine (c :: r.text) ≠ [] := by simp [hfinish]
      obtain ⟨k, level', hindent, hk⟩ := indent_cons tab level hne (below.map finishRow)
      have hfirst : LineState.first c (r.append rest) = .first c r :=
        (lineSpacer_congr (Spaced.leadingMark?_append hseam) .none).2
      have hbefore : (r.final (.first c r)).before = r.lastOf (some c) := r.before_final _
      -- it is enough to lay out what is behind the row
      suffices hrest : ∃ out, unlines (indent tab level
            ((([c] ++ r.text) :: below).map finishRow)) =
              List.replicate k ' ' ++ (finishLine (c :: r.text) ++ out) ∧
          Laid (· ∈ semicolonPlaces ((c :: r.text) :: below)) (r.final (.first c r)) rest
            (ending ++ out) by
        obtain ⟨out, htext, hlaid⟩ := hrest
        rw [hfirst]
        refine ⟨k, _, ?_, hk, Laid.of_row (s := .first c r) hrow hseam hlaid⟩
        rw [htext, hfinish]
        simp
      have htext : unlines (indent tab level ((([c] ++ r.text) :: below).map finishRow)) =
          unlines ((List.replicate k ' ' ++ finishLine (c :: r.text)) ::
            indent tab level' (below.map finishRow)) := by
        rw [List.singleton_append, List.map_cons, finishRow_text (by simp), hindent]
      rw [htext]
      cases rest with
      | last g =>
          rw [Spaced.rowsBelow] at hbelow
          split at hbelow
          · subst hbelow
            refine ⟨[], by simp [indent], .last hend (Or.inl rfl)⟩
          · subst hbelow
            refine ⟨['\n'], ?_, .last hend (Or.inr rfl)⟩
            simp [indent]
      | next g d vd u =>
          rw [Spaced.rowsBelow] at hbelow
          generalize hnext : (u.respace breakSpacer (some d)).rowsFrom [d] = next at hbelow
          have hnextne : next ≠ [] := hnext ▸ Spaced.rowsFrom_ne_nil _ _
          have hsize : u.size < (r.append (.next g d vd u)).size := by
            rw [Spaced.size_append, Spaced.size]
            omega
          obtain ⟨j, out, hout, -, hlaid⟩ := ih _ hsize u level' vd rfl
          rw [hnext] at hout hlaid
          replace hlaid : Laid (· ∈ semicolonPlaces ((c :: r.text) :: below)) (.first d u) u out := by
            refine hlaid.imp fun m hm => mem_semicolonPlaces_cons _ ?_
            rw [← hbelow]
            exact mem_semicolonPlaces_append _ hm
          have hfeeds : feedsBefore (r.final (.first c r)).before g d ≠ 0 := hbefore ▸ hends
          refine ⟨_, ?_, .feed j hfeeds hend hlaid⟩
          rw [hbefore, ← hbelow]
          split
          · rw [List.nil_append, unlines_cons _ (indent_ne_nil _ _ (by simpa using hnextne)), hout]
            simp
          · rw [List.singleton_append, List.map_cons, finishRow_nil, indent,
              if_pos List.isEmpty_nil, unlines_cons _ (by simp),
              unlines_cons _ (indent_ne_nil _ _ (by simpa using hnextne)), hout]
            simp

/-- A formatted text starts with the first visible character of its source, and the rest is laid out behind
it. -/
theorem laid_formatChars (tab : Nat) (g : Gap) {c : Char} (v : isBlank c = false) (t : Spaced) :
    ∃ out, formatChars tab (Spaced.next g c v t).text = c :: out ∧
      Laid (· ∈ semicolonPlaces (rows (breakAtBraces (Spaced.next g c v t).text)))
        (.first c t) t out := by
  have hrows : rows (breakAtBraces (Spaced.next g c v t).text) =
      (t.respace breakSpacer (some c)).rowsFrom [c] := by
    rw [breakAtBraces_text, Spaced.respace, rows_next]
    rfl
  obtain ⟨k, out, hout, hk, hlaid⟩ := exists_laid tab t 0 v
  rw [formatChars_eq_indent, hrows]
  refine ⟨out, ?_, hlaid⟩
  rw [hout, hk rfl]
  rfl

/-- A blank text is formatted to the empty one. -/
theorem formatChars_last (tab : Nat) (g : Gap) : formatChars tab (Spaced.last g).text = [] := by
  rw [formatChars_eq_indent, breakAtBraces_text, Spaced.respace, rows_last]
  rfl

end ScriptLens.Layout
