import ScriptLens.Proofs.Editor.Offsets
import ScriptLens.Proofs.Query.AtDeclarations
import ScriptLens.Proofs.Query.Returns

/-!
# Queries at words

A query looks at the word that its position touches.  Two words have something between them, so there is at most one
such word, and all positions that touch it are answered alike.  What is shown for the word is marked from its first
character to its last, and where the word is declared is where the outline has it, although the two answers are put
together apart.

Main statement: `queries_at_word`.
-/

namespace ScriptLens

open Text

namespace Query

/-! ### Words of a text -/

/-- The characters between two offsets of a text are a word: word characters, with none on either side. -/
structure WordRun (text : List Char) (first last : Nat) : Prop where
  nonempty : first < last
  inside : last ≤ text.length
  letters : ∀ c ∈ text.extract first last, isWordChar c = true
  left : ∀ c, 0 < first → text[first - 1]? = some c → isWordChar c = false
  right : ∀ c, text[last]? = some c → isWordChar c = false

/-- A cursor touches a word: it stands in the word, or at one of its ends. -/
structure Touches (text : List Char) (offset first last : Nat) : Prop where
  run : WordRun text first last
  left : first ≤ offset
  right : offset ≤ last

/-- The characters between two offsets of a text, as a name. -/
def spelled (text : List Char) (first last : Nat) : String :=
  String.ofList (text.extract first last)

theorem extract_word (before word behind : List Char) :
    (before ++ word ++ behind).extract before.length (before.length + word.length) = word := by
  simp [List.extract]

/-- A word between characters that are none of a word. -/
theorem wordRun_of_apart {before word behind : List Char} (hne : word ≠ [])
    (hword : ∀ c ∈ word, isWordChar c = true)
    (hleft : ∀ c, before.getLast? = some c → isWordChar c = false)
    (hright : ∀ c, behind.head? = some c → isWordChar c = false) :
    WordRun (before ++ word ++ behind) before.length (before.length + word.length) where
  nonempty := by
    have := List.length_pos_of_ne_nil hne
    omega
  inside := by simp
  letters := by rwa [extract_word]
  left c hpos hc := by
    refine hleft c ?_
    rw [List.append_assoc, List.getElem?_append_left (by omega)] at hc
    rw [List.getLast?_eq_getElem?, hc]
  right c hc := by
    refine hright c ?_
    rw [← List.length_append, List.getElem?_append_right (Nat.le_refl _), Nat.sub_self] at hc
    rw [List.head?_eq_getElem?, hc]

/-- A word cuts its text. -/
theorem WordRun.exists_cut {text : List Char} {first last : Nat} (h : WordRun text first last) :
    ∃ before word behind, text = before ++ word ++ behind ∧ first = before.length ∧
      last = before.length + word.length ∧ word ≠ [] ∧ (∀ c ∈ word, isWordChar c = true) ∧
      (∀ c, before.getLast? = some c → isWordChar c = false) ∧
      ∀ c, behind.head? = some c → isWordChar c = false := by
  have hlt := h.nonempty
  have hle := h.inside
  have hfirst : (text.take first).length = first := by
    rw [List.length_take]
    omega
  have hlength : (text.extract first last).length = last - first := by
    rw [List.extract, List.length_take, List.length_drop]
    omega
  refine ⟨text.take first, text.extract first last, text.drop last, ?_, hfirst.symm, by omega, ?_, h.letters, ?_, ?_⟩
  · have hsum : first + (last - first) = last := by omega
    rw [List.extract, ← List.take_add, hsum, List.take_append_drop]
  · intro hnil
    rw [hnil, List.length_nil] at hlength
    omega
  · intro c hc
    rw [List.getLast?_eq_getElem?, hfirst, List.getElem?_take] at hc
    split at hc
    · exact h.left c (by omega) hc
    · cases hc
  · intro c hc
    rw [List.head?_drop] at hc
    exact h.right c hc

/-- An offset cuts a text into the word characters on both sides of it, and what stands before and behind them. -/
theorem exists_word_around {text : List Char} {offset : Nat} (h : offset ≤ text.length) :
    ∃ before left right behind, text = before ++ (left ++ right) ++ behind ∧ offset = before.length + left.length ∧
      (∀ c ∈ left ++ right, isWordChar c = true) ∧
      (∀ c, before.getLast? = some c → isWordChar c = false) ∧
      ∀ c, behind.head? = some c → isWordChar c = false := by
  obtain ⟨left, before, hfront, hleft, hbefore⟩ := Token.exists_run isWordChar (text.take offset).reverse
  obtain ⟨right, behind, hback, hright, hbehind⟩ := Token.exists_run isWordChar (text.drop offset)
  replace hfront : text.take offset = before.reverse ++ left.reverse := by
    rw [← List.reverse_append, ← hfront, List.reverse_reverse]
  refine ⟨before.reverse, left.reverse, right, behind, ?_, ?_, ?_, ?_, hbehind⟩
  · rw [← List.append_assoc, ← hfront, List.append_assoc, ← hback, List.take_append_drop]
  · rw [← List.length_append, ← hfront, List.length_take, Nat.min_eq_left h]
  · intro c hc
    rcases List.mem_append.mp hc with hc | hc
    · exact hleft c (List.mem_reverse.mp hc)
    · exact hright c hc
  · intro c hc
    rw [List.getLast?_reverse] at hc
    exact hbefore c hc

/-- Between characters that are none of a word there is no word. -/
theorem wordAt?_eq_none {before behind : List Char}
    (hleft : ∀ c, before.getLast? = some c → isWordChar c = false)
    (hright : ∀ c, behind.head? = some c → isWordChar c = false) :
    wordAt? (before ++ behind) before.length = none := by
  have hhead : ∀ c, before.reverse.head? = some c → isWordChar c = false := by
    intro c hc
    rw [List.head?_reverse] at hc
    exact hleft c hc
  have hl : before.reverse.takeWhile isWordChar = [] := Token.takeWhile_append_of_head [] hhead
  have hr : behind.takeWhile isWordChar = [] := Token.takeWhile_append_of_head [] hright
  simp [wordAt?, hl, hr]

/-- A query finds the word that a cursor touches. -/
theorem Touches.wordAt?_eq {text : List Char} {offset first last : Nat} (h : Touches text offset first last) :
    wordAt? text offset = some ⟨text.extract first last, first, last⟩ := by
  obtain ⟨hrun, hleft, hright⟩ := h
  obtain ⟨before, word, behind, rfl, rfl, rfl, hne, hletters, hbefore, hbehind⟩ := hrun.exists_cut
  obtain ⟨k, rfl⟩ := Nat.exists_eq_add_of_le hleft
  rw [extract_word]
  exact wordAt?_of_apart hne hletters hbefore hbehind (Nat.le_of_add_le_add_left hright)

/-- The word that a query finds is one that a cursor touches. -/
theorem touches_of_wordAt? {text : List Char} {offset : Nat} (h : offset ≤ text.length) {word : Word}
    (hword : wordAt? text offset = some word) :
    Touches text offset word.first word.last ∧ word.text = text.extract word.first word.last := by
  obtain ⟨before, left, right, behind, rfl, rfl, hletters, hleft, hright⟩ := exists_word_around h
  by_cases hne : left ++ right = []
  · obtain ⟨rfl, rfl⟩ := List.append_eq_nil_iff.mp hne
    rw [List.append_nil, List.append_nil, List.length_nil, Nat.add_zero, wordAt?_eq_none hleft hright] at hword
    cases hword
  · have hk : left.length ≤ (left ++ right).length := by simp
    rw [wordAt?_of_apart hne hletters hleft hright hk] at hword
    obtain rfl := Option.some.inj hword
    exact ⟨⟨wordRun_of_apart hne hletters hleft hright, Nat.le_add_right _ _, Nat.add_le_add_left hk _⟩,
      (extract_word before (left ++ right) behind).symm⟩

/-- A cursor touches no more than one word. -/
theorem Touches.unique {text : List Char} {offset first last first' last' : Nat}
    (h : Touches text offset first last) (h' : Touches text offset first' last') :
    first' = first ∧ last' = last := by
  have hsame := h'.wordAt?_eq.symm.trans h.wordAt?_eq
  exact (Word.mk.inj (Option.some.inj hsame)).2

end Query

/-! ### Outlines -/

/-- The first entry of an outline with a name has the range of the first symbol with that name. -/
theorem Symbol.exists_entry_of_find? {symbols : List Symbol} {entries : List OutlineEntry}
    (h : symbols.mapM toOutline = .ok entries) {name : String} {symbol : Symbol}
    (hfind : find? symbols name = some symbol) :
    ∃ entry, entries.find? (fun e => e.name = name) = some entry ∧ symbol.range = .ok entry.range := by
  induction symbols generalizing entries with
  | nil => cases hfind
  | cons s rest ih =>
      rw [List.mapM_cons, toOutline] at h
      cases hrange : s.range with
      | error failure =>
          rw [hrange] at h
          cases h
      | ok range =>
          cases hrest : rest.mapM toOutline with
          | error failure =>
              rw [hrange, hrest] at h
              cases h
          | ok below =>
              rw [hrange, hrest] at h
              obtain rfl := Except.ok.inj h
              by_cases hname : s.name = name
              · obtain rfl : s = symbol := by simpa [find?, hname] using hfind
                exact ⟨_, List.find?_cons_of_pos (decide_eq_true hname), hrange⟩
              · obtain ⟨entry, hentry, hsymbol⟩ := ih hrest (by simpa [find?, hname] using hfind)
                exact ⟨entry, by simpa [hname] using hentry, hsymbol⟩

/-! ### Answers -/

namespace Query.Snapshot

section

variable {s : Snapshot} {line character : Int}

/-- All symbols of a document stand somewhere, so the outline has all of them. -/
theorem Short.outline_eq (h : s.Short) : s.outline = s.symbols.mapM Symbol.toOutline := by
  have hdeclared : s.symbols.filter Symbol.isDeclared = s.symbols := by
    refine List.filter_eq_self.mpr fun symbol hsymbol => ?_
    obtain ⟨length, -, hinside⟩ := h.symbols symbol hsymbol
    exact decide_eq_true hinside.line.1
  rw [Snapshot.outline, hdeclared]

/-- What is shown for a word is marked from its first character to its last. -/
theorem Short.hover_of_meaning (h : s.Short) {word : Word} {symbol : Symbol}
    (hmeaning : s.meaningAt? line character = some (word, symbol)) (hrun : WordRun s.text word.first word.last) :
    ∃ range, s.hover line character = .ok (some ⟨hoverText word.text symbol, range⟩) ∧
      range.first.offset s.text = word.first ∧ range.last.offset s.text = word.last := by
  obtain ⟨last, hlast, hlastOffset⟩ := Position.exists_offset_eq h.text hrun.inside
  obtain ⟨first, hfirst, hfirstOffset⟩ :=
    Position.exists_offset_eq h.text (Nat.le_trans (Nat.le_of_lt hrun.nonempty) hrun.inside)
  refine ⟨⟨first, last⟩, ?_, hfirstOffset, hlastOffset⟩
  rw [Snapshot.hover, hmeaning]
  simp only [hfirst, hlast]
  rfl

/-- A word is declared where the outline has it first. -/
theorem Short.definition_of_declared (h : s.Short) {entries : List OutlineEntry} (houtline : s.outline = .ok entries)
    {word : Word} {symbol : Symbol} (hmeaning : s.meaningAt? line character = some (word, symbol))
    (hfind : Symbol.find? s.symbols (String.ofList word.text) = some symbol) (hdeclared : symbol.isDeclared = true) :
    ∃ entry, entries.find? (fun e => e.name = String.ofList word.text) = some entry ∧
      s.definition line character = .ok (some ⟨s.uri, entry.range⟩) := by
  rw [h.outline_eq] at houtline
  obtain ⟨entry, hentry, hrange⟩ := Symbol.exists_entry_of_find? houtline hfind
  refine ⟨entry, hentry, ?_⟩
  have hline : max 0 (symbol.line - 1) = symbol.line - 1 := by
    have hpos : 0 < symbol.line := of_decide_eq_true hdeclared
    omega
  have hlength : symbol.name.length = word.text.length := by
    rw [(Symbol.find?_eq_some hfind).1, String.length_ofList]
  rw [Symbol.range, hline, hlength] at hrange
  rw [Snapshot.definition, hmeaning]
  simp only [hdeclared, if_true, hrange]
  rfl

end

section

variable {source uri : String} {p : Program} {line character : Int}

/-- A query at a word is about the word and what it means. -/
theorem meaningAt?_of_touches {first last : Nat}
    (h : Touches source.toList (Position.offsetOf source.toList line character) first last) :
    (⟨source, uri, some p⟩ : Snapshot).meaningAt? line character =
      (Symbol.resolve? p.symbols (spelled source.toList first last)).map
        (⟨source.toList.extract first last, first, last⟩, ·) := by
  have hmeans : (⟨source, uri, some p⟩ : Snapshot).resolve? (source.toList.extract first last) =
      Symbol.resolve? p.symbols (spelled source.toList first last) := rfl
  rw [meaningAt?, text, h.wordAt?_eq, ← hmeans]
  cases hmeaning : (⟨source, uri, some p⟩ : Snapshot).resolve? (source.toList.extract first last) with
  | none => simp [hmeaning]
  | some symbol => simp [hmeaning]

/-- What a query is about is a word that its position touches. -/
theorem touches_of_meaningAt? {word : Word} {symbol : Symbol}
    (h : (⟨source, uri, some p⟩ : Snapshot).meaningAt? line character = some (word, symbol)) :
    Touches source.toList (Position.offsetOf source.toList line character) word.first word.last ∧
      word.text = source.toList.extract word.first word.last ∧
      Symbol.resolve? p.symbols (spelled source.toList word.first word.last) = some symbol := by
  obtain ⟨found, hfound, hrest⟩ := Option.bind_eq_some_iff.mp h
  obtain ⟨meaning, hmeaning, heq⟩ := Option.bind_eq_some_iff.mp hrest
  obtain ⟨rfl, rfl⟩ := Prod.mk.inj (Option.some.inj heq)
  obtain ⟨htouches, hspelled⟩ := touches_of_wordAt? (Position.offsetOf_le _ _ _) hfound
  rw [hspelled] at hmeaning
  exact ⟨htouches, hspelled, hmeaning⟩

/-- Something is shown exactly at words that mean something. -/
theorem Short.exists_hover (h : (⟨source, uri, some p⟩ : Snapshot).Short) (line character : Int) :
    ∃ hover, (⟨source, uri, some p⟩ : Snapshot).hover line character = .ok hover ∧
      (hover.isSome ↔ ∃ first last symbol,
        Touches source.toList (Position.offsetOf source.toList line character) first last ∧
        Symbol.resolve? p.symbols (spelled source.toList first last) = some symbol) ∧
      ∀ shown ∈ hover, ∃ first last,
        Touches source.toList (Position.offsetOf source.toList line character) first last ∧
        shown.range.first.offset source.toList = first ∧ shown.range.last.offset source.toList = last := by
  cases hmeaning : (⟨source, uri, some p⟩ : Snapshot).meaningAt? line character with
  | none =>
      refine ⟨none, by rw [Snapshot.hover, hmeaning], ?_, by simp⟩
      refine iff_of_false Bool.false_ne_true ?_
      rintro ⟨first, last, symbol, htouches, hsymbol⟩
      rw [meaningAt?_of_touches htouches, hsymbol] at hmeaning
      cases hmeaning
  | some meaning =>
      obtain ⟨word, symbol⟩ := meaning
      obtain ⟨htouches, -, hsymbol⟩ := touches_of_meaningAt? hmeaning
      obtain ⟨range, hhover, hfirst, hlast⟩ := h.hover_of_meaning hmeaning htouches.run
      refine ⟨_, hhover, iff_of_true rfl ⟨_, _, symbol, htouches, hsymbol⟩, ?_⟩
      rintro shown hshown
      obtain rfl := Option.some.inj hshown
      exact ⟨_, _, htouches, hfirst, hlast⟩

/-- A position is led to a declaration exactly at words whose meaning is declared somewhere. -/
theorem Short.exists_definition (h : (⟨source, uri, some p⟩ : Snapshot).Short) {entries : List OutlineEntry}
    (houtline : (⟨source, uri, some p⟩ : Snapshot).outline = .ok entries) (line character : Int) :
    ∃ definition, (⟨source, uri, some p⟩ : Snapshot).definition line character = .ok definition ∧
      (definition.isSome ↔ ∃ first last symbol,
        Touches source.toList (Position.offsetOf source.toList line character) first last ∧
        Symbol.resolve? p.symbols (spelled source.toList first last) = some symbol ∧ 0 < symbol.line) ∧
      ∀ target ∈ definition, target.uri = uri ∧ ∃ first last,
        Touches source.toList (Position.offsetOf source.toList line character) first last ∧
        (entries.find? fun e => e.name = spelled source.toList first last).map OutlineEntry.range =
          some target.range := by
  cases hmeaning : (⟨source, uri, some p⟩ : Snapshot).meaningAt? line character with
  | none =>
      refine ⟨none, by rw [Snapshot.definition, hmeaning], ?_, by simp⟩
      refine iff_of_false Bool.false_ne_true ?_
      rintro ⟨first, last, symbol, htouches, hsymbol, -⟩
      rw [meaningAt?_of_touches htouches, hsymbol] at hmeaning
      cases hmeaning
  | some meaning =>
      obtain ⟨word, symbol⟩ := meaning
      obtain ⟨htouches, hspelled, hsymbol⟩ := touches_of_meaningAt? hmeaning
      cases hdeclared : symbol.isDeclared with
      | false =>
          refine ⟨none, ?_, ?_, by simp⟩
          · rw [Snapshot.definition, hmeaning]
            simp [hdeclared]
          · refine iff_of_false Bool.false_ne_true ?_
            rintro ⟨first, last, symbol', htouches', hsymbol', hline⟩
            obtain ⟨rfl, rfl⟩ := htouches.unique htouches'
            obtain rfl := Option.some.inj (hsymbol.symm.trans hsymbol')
            exact of_decide_eq_false hdeclared hline
      | true =>
          have hfind := (Symbol.resolve?_eq_some hsymbol).2 hdeclared
          rw [spelled, ← hspelled] at hfind
          obtain ⟨entry, hentry, hdefinition⟩ := h.definition_of_declared houtline hmeaning hfind hdeclared
          refine ⟨_, hdefinition, iff_of_true rfl ⟨_, _, symbol, htouches, hsymbol, of_decide_eq_true hdeclared⟩, ?_⟩
          rintro target htarget
          obtain rfl := Option.some.inj htarget
          rw [hspelled] at hentry
          exact ⟨rfl, _, _, htouches, congrArg (Option.map OutlineEntry.range) hentry⟩

/-- A program that was read from a text that is not too long goes with any other such text. -/
theorem short_of_read {earlier : String} {file : Option String} (hread : Syntax.read earlier file = .ok p)
    (hshort : source.length < 2147483648) (hearlier : earlier.length < 2147483648) :
    (⟨source, uri, some p⟩ : Snapshot).Short :=
  ⟨hshort, fun _ hsymbol => ⟨earlier.length, hearlier, inside_of_mem_symbols hread hsymbol⟩⟩

end

/-- Let a document have a text of less than `2 ^ 31` characters, and a program that was read from a text of that size,
which may be another one.  Something is shown at a position exactly if it touches a word that means something, and the
position is led to a declaration exactly if the meaning of the word is declared somewhere, so never to what is built
in.  A position touches no more than one word.  What is shown is marked from the first character of the word to its
last, all positions that touch the word have the same answers, and the declaration is where the first entry of the
outline with that word stands. -/
theorem queries_at_word {source earlier : String} (hshort : source.length < 2147483648)
    (hearlier : earlier.length < 2147483648) {file : Option String} {p : Program}
    (hread : Syntax.read earlier file = .ok p) (uri : String) (line character : Int) :
    ∃ hover definition entries,
      (⟨source, uri, some p⟩ : Snapshot).hover line character = .ok hover ∧
      (⟨source, uri, some p⟩ : Snapshot).definition line character = .ok definition ∧
      (⟨source, uri, some p⟩ : Snapshot).outline = .ok entries ∧
      (hover.isSome ↔ ∃ first last symbol,
        Touches source.toList (Position.offsetOf source.toList line character) first last ∧
        Symbol.resolve? p.symbols (spelled source.toList first last) = some symbol) ∧
      (definition.isSome ↔ ∃ first last symbol,
        Touches source.toList (Position.offsetOf source.toList line character) first last ∧
        Symbol.resolve? p.symbols (spelled source.toList first last) = some symbol ∧ 0 < symbol.line) ∧
      ∀ first last, Touches source.toList (Position.offsetOf source.toList line character) first last →
        (∀ first' last', Touches source.toList (Position.offsetOf source.toList line character) first' last' →
          first' = first ∧ last' = last) ∧
        (∀ shown ∈ hover, shown.range.first.offset source.toList = first ∧
          shown.range.last.offset source.toList = last) ∧
        (∀ line' character', first ≤ Position.offsetOf source.toList line' character' →
          Position.offsetOf source.toList line' character' ≤ last →
          (⟨source, uri, some p⟩ : Snapshot).hover line' character' = .ok hover ∧
          (⟨source, uri, some p⟩ : Snapshot).definition line' character' = .ok definition) ∧
        (∀ symbol ∈ Builtin.symbols, Symbol.resolve? p.symbols (spelled source.toList first last) = some symbol →
          definition = none) ∧
        ∀ target ∈ definition, target.uri = uri ∧
          (entries.find? fun e => e.name = spelled source.toList first last).map OutlineEntry.range =
            some target.range := by
  have h : (⟨source, uri, some p⟩ : Snapshot).Short := short_of_read hread hshort hearlier
  obtain ⟨entries, houtline, -⟩ := h.outline
  obtain ⟨hover, hhover, hshows, hmarked⟩ := h.exists_hover line character
  obtain ⟨definition, hdefinition, hleads, hlisted⟩ := h.exists_definition houtline line character
  refine ⟨hover, definition, entries, hhover, hdefinition, houtline, hshows, hleads, ?_⟩
  intro first last htouches
  refine ⟨fun _ _ => htouches.unique, ?_, ?_, ?_, ?_⟩
  · intro shown hshown
    obtain ⟨first', last', htouches', hrange⟩ := hmarked shown hshown
    obtain ⟨rfl, rfl⟩ := htouches.unique htouches'
    exact hrange
  · intro line' character' hleft hright
    have hsame : (⟨source, uri, some p⟩ : Snapshot).meaningAt? line' character' =
        (⟨source, uri, some p⟩ : Snapshot).meaningAt? line character := by
      rw [meaningAt?_of_touches htouches, meaningAt?_of_touches ⟨htouches.run, hleft, hright⟩]
    rw [Snapshot.hover, Snapshot.definition, hsame]
    exact ⟨hhover, hdefinition⟩
  · intro symbol hbuiltin hsymbol
    rw [← Option.not_isSome_iff_eq_none, hleads]
    rintro ⟨first', last', symbol', htouches', hsymbol', hline⟩
    obtain ⟨rfl, rfl⟩ := htouches.unique htouches'
    obtain rfl := Option.some.inj (hsymbol.symm.trans hsymbol')
    exact of_decide_eq_false (Builtin.isDeclared_of_mem symbol hbuiltin) hline
  · intro target htarget
    obtain ⟨huri, first', last', htouches', hentry⟩ := hlisted target htarget
    obtain ⟨rfl, rfl⟩ := htouches.unique htouches'
    exact ⟨huri, hentry⟩

/-- A text that was changed since its program was read: at the first character of a name, and far behind the end of the
line that ends with the name. -/
theorem queries_at_word_earlier_program :
    ∃ p shown target entries, Syntax.read "fn f(x) \x7b\x7d" none = .ok p ∧
      (⟨"g f\nlen", "m", some p⟩ : Snapshot).hover 0 2 = .ok (some shown) ∧
      (⟨"g f\nlen", "m", some p⟩ : Snapshot).hover 0 99 = .ok (some shown) ∧
      shown.range.first.offset "g f\nlen".toList = 2 ∧ shown.range.last.offset "g f\nlen".toList = 3 ∧
      (⟨"g f\nlen", "m", some p⟩ : Snapshot).definition 0 2 = .ok (some target) ∧
      (⟨"g f\nlen", "m", some p⟩ : Snapshot).outline = .ok entries ∧
      (entries.find? fun e => e.name = "f").map OutlineEntry.range = some target.range := by
  have hsymbols : ((Syntax.read "fn f(x) \x7b\x7d" none).toOption.map fun p =>
      p.symbols.map fun s => (s.name, s.line)) = some [("f", 1), ("x", 1)] := by
    decide +kernel
  cases hread : Syntax.read "fn f(x) \x7b\x7d" none with
  | error failure =>
      rw [hread] at hsymbols
      cases hsymbols
  | ok p =>
      rw [hread] at hsymbols
      obtain ⟨f, rest, hp, hf, -⟩ := List.map_eq_cons_iff.mp (Option.some.inj hsymbols)
      obtain ⟨hname, hline⟩ := Prod.mk.inj hf
      have hmeans : Symbol.resolve? p.symbols "f" = some f := by
        simp [Symbol.resolve?, Symbol.find?, hp, hname]
      have htouches : Touches "g f\nlen".toList (Position.offsetOf "g f\nlen".toList 0 2) 2 3 :=
        ⟨⟨by decide, by decide, List.all_eq_true.mp (by decide), by simp [isWordChar], by simp [isWordChar]⟩,
          by decide, by decide⟩
      have hshort : "g f\nlen".length < 2147483648 := by decide
      obtain ⟨hover, definition, entries, hhover, hdefinition, houtline, hshows, hleads, hall⟩ :=
        queries_at_word hshort (by decide) hread "m" 0 2
      obtain ⟨shown, rfl⟩ := Option.isSome_iff_exists.mp (hshows.mpr ⟨2, 3, f, htouches, hmeans⟩)
      obtain ⟨target, rfl⟩ := Option.isSome_iff_exists.mp
        (hleads.mpr ⟨2, 3, f, htouches, hmeans, by rw [hline]; decide⟩)
      obtain ⟨-, hmarked, hsame, -, hlisted⟩ := hall 2 3 htouches
      exact ⟨p, shown, target, entries, rfl, hhover, (hsame 0 99 (by decide) (by decide)).1, (hmarked shown rfl).1,
        (hmarked shown rfl).2, hdefinition, houtline, (hlisted target rfl).2⟩

end Query.Snapshot

end ScriptLens
