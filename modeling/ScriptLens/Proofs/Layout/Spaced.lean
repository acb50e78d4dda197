import ScriptLens.Text.Blank

/-!
# Texts as visible characters and the gaps between them

Every rule of the formatter moves blanks and leaves the visible characters alone.  So a text is taken
apart here into its visible characters and the gaps before, between and behind them, and a `Spacer`
describes what a rule does: it walks from gap to gap and says what each one becomes.

Main statements: every text is the text of a `Spaced` value (`Spaced.text_ofChars`), and trimming a text
empties its outer gaps (`Spaced.trim_text`).
-/

namespace ScriptLens.Layout

open Text

/-! ### Gaps -/

/-- A run of blanks. -/
structure Gap where
  chars : List Char
  blank : ∀ c ∈ chars, isBlank c = true

namespace Gap

/-- No blank at all. -/
def none : Gap := ⟨[], by simp⟩

/-- One space. -/
def one : Gap := ⟨[' '], List.all_eq_true.mp (by decide)⟩

/-- One line feed. -/
def feed : Gap := ⟨['\n'], List.all_eq_true.mp (by decide)⟩

/-- A gap with one more blank in front. -/
def cons (c : Char) (h : isBlank c = true) (g : Gap) : Gap :=
  ⟨c :: g.chars, by simpa [h] using g.blank⟩

@[simp] theorem chars_none : none.chars = [] := rfl
@[simp] theorem chars_one : one.chars = [' '] := rfl
@[simp] theorem chars_feed : feed.chars = ['\n'] := rfl

theorem eq_of_chars {g h : Gap} (e : g.chars = h.chars) : g = h := by
  cases g
  cases h
  cases e
  rfl

/-- Trimming drops a gap in front. -/
theorem trimLeft_append (g : Gap) (cs : List Char) : trimLeft (g.chars ++ cs) = trimLeft cs := by
  rw [trimLeft, List.dropWhile_append_of_pos g.blank, trimLeft]

/-- Trimming drops a gap behind. -/
theorem trimRight_append (g : Gap) (cs : List Char) : trimRight (cs ++ g.chars) = trimRight cs := by
  have h : ∀ c ∈ g.chars.reverse, isBlank c = true := by simpa using g.blank
  rw [trimRight, List.reverse_append, List.dropWhile_append_of_pos h, trimRight]

end Gap

/-! ### Spaced texts -/

/-- The visible characters of a text. -/
def visible (cs : List Char) : List Char :=
  cs.filter (!isBlank ·)

@[simp] theorem visible_append (cs ds : List Char) :
    visible (cs ++ ds) = visible cs ++ visible ds :=
  List.filter_append ..

theorem visible_cons {c : Char} (v : isBlank c = false) (cs : List Char) :
    visible (c :: cs) = c :: visible cs := by
  simp [visible, v]

theorem isBlank_of_mem_visible {c : Char} {cs : List Char} (h : c ∈ visible cs) :
    isBlank c = false := by
  simpa using (List.mem_filter.mp h).2

@[simp] theorem Gap.visible_chars (g : Gap) : visible g.chars = [] := by
  simpa [visible] using g.blank

/-- A text, taken apart into gaps and visible characters. -/
inductive Spaced where
  | last (gap : Gap)
  | next (gap : Gap) (char : Char) (visible : isBlank char = false) (rest : Spaced)

namespace Spaced

/-- The text itself. -/
def text : Spaced → List Char
  | .last g => g.chars
  | .next g c _ rest => g.chars ++ c :: rest.text

/-- The visible characters. -/
def letters : Spaced → List Char
  | .last _ => []
  | .next _ c _ rest => c :: rest.letters

/-- The number of visible characters. -/
def size : Spaced → Nat
  | .last _ => 0
  | .next _ _ _ rest => rest.size + 1

/-- The gap in front. -/
def lead : Spaced → Gap
  | .last g => g
  | .next g _ _ _ => g

/-- Replace the gap in front. -/
def setLead (g : Gap) : Spaced → Spaced
  | .last _ => .last g
  | .next _ c v rest => .next g c v rest

/-- Replace the gap behind. -/
def setLast (g : Gap) : Spaced → Spaced
  | .last _ => .last g
  | .next h c v rest => .next h c v (rest.setLast g)

/-- Take a text apart. -/
def ofChars : List Char → Spaced
  | [] => .last .none
  | c :: cs =>
      if h : isBlank c = true then (ofChars cs).setLead ((ofChars cs).lead.cons c h)
      else .next .none c (by simpa using h) (ofChars cs)

@[simp] theorem text_last (g : Gap) : (last g).text = g.chars := rfl

@[simp] theorem text_next (g : Gap) (c : Char) (v : isBlank c = false) (rest : Spaced) :
    (next g c v rest).text = g.chars ++ c :: rest.text := rfl

@[simp] theorem setLead_lead (t : Spaced) : t.setLead t.lead = t := by
  cases t <;> rfl

@[simp] theorem size_setLead (t : Spaced) (g : Gap) : (t.setLead g).size = t.size := by
  cases t <;> rfl

theorem text_setLead (t : Spaced) (g : Gap) :
    (t.setLead g).text = g.chars ++ (t.setLead .none).text := by
  cases t <;> simp [setLead]

theorem text_eq_lead (t : Spaced) : t.text = t.lead.chars ++ (t.setLead .none).text := by
  cases t <;> simp [setLead, lead]

/-- Taking a text apart loses nothing. -/
theorem text_ofChars (cs : List Char) : (ofChars cs).text = cs := by
  induction cs with
  | nil => rfl
  | cons c cs ih =>
      rw [ofChars]
      split
      · rename_i h
        have hlead := text_eq_lead (ofChars cs)
        rw [ih] at hlead
        rw [text_setLead, Gap.cons, List.cons_append, ← hlead]
      · simp [ih]

/-- The visible characters are those of the text. -/
theorem visible_text (t : Spaced) : visible t.text = t.letters := by
  induction t with
  | last g => exact g.visible_chars
  | next g c v rest ih => rw [text_next, visible_append, visible_cons v, g.visible_chars, ih]; rfl

/-! ### Trimming -/

/-- Drop the outer gaps. -/
def trim (t : Spaced) : Spaced :=
  (t.setLead .none).setLast .none

/-- Behind a visible character nothing is left to drop in front. -/
theorem trimLeft_setLead (t : Spaced) : trimLeft t.text = (t.setLead .none).text := by
  cases t with
  | last g => simpa [setLead, trimLeft] using g.trimLeft_append []
  | next g c v rest =>
      rw [text_next, g.trimLeft_append]
      simp [setLead, trimLeft, v]

theorem length_lead (t : Spaced) : (t.text.takeWhile isBlank).length = t.lead.chars.length := by
  cases t with
  | last g =>
      have h : (g.chars ++ []).takeWhile isBlank = g.chars ++ [].takeWhile isBlank :=
        List.takeWhile_append_of_pos g.blank
      simpa [lead] using congrArg List.length h
  | next g c v rest => simp [lead, List.takeWhile_append_of_pos g.blank, v]

/-- A text that ends with a visible character is trimmed behind. -/
theorem trimRight_of_visible (cs : List Char) (c : Char) (v : isBlank c = false) (rest : List Char) :
    trimRight (cs ++ c :: rest) = cs ++ c :: trimRight rest := by
  simp only [trimRight, List.reverse_append, List.reverse_cons, List.append_assoc]
  rw [List.dropWhile_append]
  split
  · rename_i h
    rw [List.isEmpty_iff.mp h]
    simp [v]
  · simp

theorem trimRight_setLast (t : Spaced) : trimRight t.text = (t.setLast .none).text := by
  induction t with
  | last g => simpa [setLast, trimRight] using g.trimRight_append []
  | next g c v rest ih => rw [text_next, trimRight_of_visible _ _ v, ih, setLast, text_next]

/-- Trimming empties the outer gaps. -/
theorem trim_text (t : Spaced) : Text.trim t.text = t.trim.text := by
  rw [Text.trim, trimLeft_setLead, trimRight_setLast, trim]

end Spaced

/-- A trimmed text starts with its first visible character. -/
theorem head?_trim (cs : List Char) : (trim cs).head? = (visible cs).head? := by
  rw [← Spaced.text_ofChars cs, Spaced.trim_text, Spaced.visible_text]
  cases Spaced.ofChars cs <;> rfl

/-- A trimmed text ends with its last visible character. -/
theorem getLast?_trim (cs : List Char) : (trim cs).getLast? = (visible cs).getLast? := by
  have hlast : ∀ t : Spaced, (t.setLast .none).text.getLast? = t.letters.getLast? := by
    intro t
    induction t with
    | last g => rfl
    | next g c v rest ih =>
        rw [Spaced.setLast, Spaced.text_next, Spaced.letters, List.getLast?_append, List.getLast?_cons,
          List.getLast?_cons, ih]
        rfl
  rw [← Spaced.text_ofChars cs, Spaced.trim_text, Spaced.visible_text, Spaced.trim, hlast]
  cases Spaced.ofChars cs <;> rfl

/-! ### Spacers -/

/-- A way to change the gaps of a text from front to end.  What a gap becomes may depend on what was seen
before, on the gap, and on the visible character behind it with all that follows. -/
structure Spacer (σ : Type) where
  /-- The gap before a visible character. -/
  between : σ → Gap → Char → Spaced → Gap
  /-- The gap behind the text. -/
  behind : σ → Gap → Gap
  /-- What is known after a visible character. -/
  advance : σ → Gap → Char → Spaced → σ

namespace Spaced

variable {σ : Type}

/-- Change the gaps of a text. -/
def respace (m : Spacer σ) : σ → Spaced → Spaced
  | s, .last g => .last (m.behind s g)
  | s, .next g c v rest => .next (m.between s g c rest) c v (respace m (m.advance s g c rest) rest)

/-- A spacer keeps the visible characters. -/
@[simp] theorem letters_respace (m : Spacer σ) (s : σ) (t : Spaced) :
    (t.respace m s).letters = t.letters := by
  induction t generalizing s with
  | last g => rfl
  | next g c v rest ih => simp [respace, letters, ih]

@[simp] theorem letters_setLead (t : Spaced) (g : Gap) : (t.setLead g).letters = t.letters := by
  cases t <;> rfl

@[simp] theorem letters_setLast (t : Spaced) (g : Gap) : (t.setLast g).letters = t.letters := by
  induction t with
  | last h => rfl
  | next h c v rest ih => simp [setLast, letters, ih]

@[simp] theorem letters_trim (t : Spaced) : t.trim.letters = t.letters := by
  simp [trim]

end Spaced

end ScriptLens.Layout
