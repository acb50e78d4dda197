import ScriptLens.Proofs.Symbol.Extents
import ScriptLens.Query.Snapshot

/-!
# Queries about a document return

The positions in an answer come from the present text or from the symbols of the last program, which may belong to an
earlier text.  If neither text is too long for the editor, the protocol has all numbers in the answer.

Main statements: `Snapshot.Short.hover`, `Snapshot.Short.definition`, `Snapshot.Short.outline` and
`Snapshot.Short.signature`.
-/

namespace ScriptLens

open Text

/-! ### Numbers that the protocol has -/

/-- The protocol has both numbers of a position. -/
def Position.Bounded (position : Position) : Prop :=
  position.line ≤ 2147483647 ∧ position.character ≤ 2147483647

/-- The protocol has all numbers of a range. -/
def Range.Bounded (range : Range) : Prop :=
  range.first.Bounded ∧ range.last.Bounded

theorem Position.exists_make {line character : Int} (hline : 0 ≤ line ∧ line ≤ 2147483647)
    (hcharacter : 0 ≤ character ∧ character ≤ 2147483647) :
    ∃ position, make line character = .ok position ∧ position.Bounded := by
  have hmax : maxFieldValue = 2147483647 := rfl
  refine ⟨⟨line.toNat, character.toNat⟩, (make_eq_ok_iff _ _ _).mpr ?_, ?_⟩
  · dsimp only
    omega
  · constructor <;> dsimp only <;> omega

theorem Range.exists_onLine {line first last : Int} (hline : 0 ≤ line ∧ line ≤ 2147483647)
    (hfirst : 0 ≤ first) (hle : first ≤ last) (hlast : last ≤ 2147483647) :
    ∃ range, Range.onLine line first last = .ok range ∧ range.Bounded := by
  obtain ⟨start, hstart, hstartBounded⟩ := Position.exists_make hline ⟨hfirst, by omega⟩
  obtain ⟨stop, hstop, hstopBounded⟩ := Position.exists_make hline ⟨by omega, hlast⟩
  exact ⟨⟨start, stop⟩, (onLine_eq_ok_iff _ _ _ _).mpr ⟨hstart, hstop⟩, hstartBounded, hstopBounded⟩

/-- Every offset has a position in a text that is not too long, since it is moved into the text. -/
theorem Position.exists_ofOffset {text : List Char} (hshort : text.length < 2147483648) (offset : Int) :
    ∃ position, ofOffset text offset = .ok position ∧ position.Bounded := by
  rw [ofOffset_eq]
  generalize hbefore : text.take (clamp text offset) = before
  have hlength : before.length ≤ text.length := by
    rw [← hbefore]
    exact List.length_take_le' _ _
  have hcount : before.count '\n' ≤ before.length := List.count_le_length
  have hwidth := lastWidth_le before
  apply exists_make <;> omega

/-- A symbol in a text that is not too long can be shown where it stands, under a name of the length of its own. -/
theorem Symbol.Inside.exists_onLine {s : Symbol} {length : Nat} (h : s.Inside length)
    (hshort : length < 2147483648) :
    ∃ range, Range.onLine (s.line - 1) (max 0 (s.column - 1)) (max 0 (s.column - 1) + s.name.length) = .ok range ∧
      range.Bounded := by
  obtain ⟨⟨hline, hlast⟩, hcolumn, hname⟩ := h
  apply Range.exists_onLine <;> omega

theorem Symbol.Inside.exists_range {s : Symbol} {length : Nat} (h : s.Inside length)
    (hshort : length < 2147483648) : ∃ range, s.range = .ok range ∧ range.Bounded := by
  have hline : max 0 (s.line - 1) = s.line - 1 := by
    have := h.line
    omega
  rw [Symbol.range, hline]
  exact h.exists_onLine hshort

theorem Symbol.find?_eq_some {symbols : List Symbol} {name : String} {symbol : Symbol}
    (h : Symbol.find? symbols name = some symbol) : symbol.name = name ∧ symbol ∈ symbols := by
  rw [find?] at h
  exact ⟨by simpa using List.find?_some h, List.mem_of_find?_eq_some h⟩

theorem Builtin.isDeclared_of_mem : ∀ symbol ∈ Builtin.symbols, symbol.isDeclared = false := by
  decide

/-- What a name means has the name, and what is declared somewhere is the first symbol of the document with it. -/
theorem Symbol.resolve?_eq_some {locals : List Symbol} {name : String} {symbol : Symbol}
    (h : Symbol.resolve? locals name = some symbol) :
    symbol.name = name ∧ (symbol.isDeclared = true → find? locals name = some symbol) := by
  rw [resolve?, Option.or_eq_some_iff] at h
  rcases h with hlocal | ⟨-, hbuiltin⟩
  · exact ⟨(find?_eq_some hlocal).1, fun _ => hlocal⟩
  · obtain ⟨hname, hmem⟩ := find?_eq_some hbuiltin
    refine ⟨hname, fun hdeclared => ?_⟩
    rw [Builtin.isDeclared_of_mem symbol hmem] at hdeclared
    cases hdeclared

/-- Symbols that can all be shown have an outline with an entry for each. -/
theorem exists_outline_of_range {symbols : List Symbol}
    (h : ∀ s ∈ symbols, ∃ range, s.range = .ok range ∧ range.Bounded) :
    ∃ entries, symbols.mapM Symbol.toOutline = .ok entries ∧ entries.length = symbols.length ∧
      ∀ entry ∈ entries, entry.range.Bounded := by
  induction symbols with
  | nil => exact ⟨[], rfl, rfl, by simp⟩
  | cons s rest ih =>
      obtain ⟨range, hrange, hbounded⟩ := h s List.mem_cons_self
      obtain ⟨entries, hentries, hlength, hall⟩ := ih fun u hu => h u (List.mem_cons_of_mem s hu)
      have hfirst : s.toOutline = .ok ⟨s.name, s.kind.outlineCode, range, s.detail⟩ := by
        rw [Symbol.toOutline, hrange]
        rfl
      rw [List.mapM_cons, hfirst, hentries]
      refine ⟨_, rfl, congrArg (· + 1) hlength, ?_⟩
      intro entry hentry
      rcases List.mem_cons.mp hentry with rfl | hentry
      · exact hbounded
      · exact hall entry hentry

/-- The commas of a call stand in the text in front of the place. -/
theorem Query.openCall?_commas_le {before rest : List Char} {commas : Nat}
    (h : openCall? before = some (rest, commas)) : commas ≤ before.length := by
  rw [openCall?] at h
  split at h
  · cases h
  · obtain ⟨-, rfl⟩ := Prod.mk.inj (Option.some.inj h)
    exact Nat.le_trans List.count_le_length (List.takeWhile_prefix _).length_le

namespace Query.Snapshot

/-! ### One document -/

/-- The text of a document is not too long, and neither is the text of its symbols, which may be another one. -/
structure Short (s : Snapshot) : Prop where
  source : s.source.length < 2147483648
  symbols : ∀ symbol ∈ s.symbols, ∃ length, length < 2147483648 ∧ symbol.Inside length

variable {s : Snapshot}

theorem Short.text (h : s.Short) : s.text.length < 2147483648 := by
  rw [Snapshot.text, String.length_toList]
  exact h.source

theorem Short.hover (h : s.Short) (line character : Int) :
    ∃ answer, s.hover line character = .ok answer ∧ ∀ hover ∈ answer, hover.range.Bounded := by
  rw [Snapshot.hover]
  split
  · exact ⟨none, rfl, by simp⟩
  · rename_i word symbol hmeaning
    obtain ⟨first, hfirst, hfirstBounded⟩ := Position.exists_ofOffset h.text word.first
    obtain ⟨last, hlast, hlastBounded⟩ := Position.exists_ofOffset h.text word.last
    rw [hfirst, hlast]
    refine ⟨_, rfl, ?_⟩
    rintro hover hhover
    obtain rfl := Option.some.inj hhover
    exact ⟨hfirstBounded, hlastBounded⟩

/-- What a word means is called as the word is spelled, and what is declared somewhere is a symbol of the document. -/
theorem meaningAt?_eq_some {line character : Int} {word : Word} {symbol : Symbol}
    (h : s.meaningAt? line character = some (word, symbol)) :
    symbol.name = String.ofList word.text ∧ (symbol.isDeclared = true → symbol ∈ s.symbols) := by
  rw [meaningAt?] at h
  split at h
  · cases h
  · obtain ⟨found, -, hfound⟩ := Option.bind_eq_some_iff.mp h
    obtain ⟨meaning, hmeaning, heq⟩ := Option.bind_eq_some_iff.mp hfound
    obtain ⟨rfl, rfl⟩ := Prod.mk.inj (Option.some.inj heq)
    obtain ⟨hname, hdeclared⟩ := Symbol.resolve?_eq_some hmeaning
    exact ⟨hname, fun h => (Symbol.find?_eq_some (hdeclared h)).2⟩

theorem Short.definition (h : s.Short) (line character : Int) :
    ∃ answer, s.definition line character = .ok answer ∧ ∀ target ∈ answer, target.range.Bounded := by
  rw [Snapshot.definition]
  split
  · exact ⟨none, rfl, by simp⟩
  · rename_i word symbol hmeaning
    split
    · rename_i hdeclared
      obtain ⟨hname, hmem⟩ := meaningAt?_eq_some hmeaning
      obtain ⟨length, hlength, hinside⟩ := h.symbols symbol (hmem hdeclared)
      have hword : symbol.name.length = word.text.length := by
        rw [hname, String.length_ofList]
      obtain ⟨range, hrange, hbounded⟩ := hinside.exists_onLine hlength
      rw [hword] at hrange
      dsimp only
      rw [hrange]
      refine ⟨_, rfl, ?_⟩
      rintro target htarget
      obtain rfl := Option.some.inj htarget
      exact hbounded
    · exact ⟨none, rfl, by simp⟩

theorem Short.outline (h : s.Short) :
    ∃ entries, s.outline = .ok entries ∧ ∀ entry ∈ entries, entry.range.Bounded := by
  have hrange : ∀ symbol ∈ s.symbols.filter Symbol.isDeclared,
      ∃ range, symbol.range = .ok range ∧ range.Bounded := by
    intro symbol hsymbol
    obtain ⟨length, hlength, hinside⟩ := h.symbols symbol (List.mem_of_mem_filter hsymbol)
    exact hinside.exists_range hlength
  obtain ⟨entries, hentries, -, hbounded⟩ := exists_outline_of_range hrange
  exact ⟨entries, hentries, hbounded⟩

/-- There are no more commas in front of a place than characters in the text. -/
theorem Short.signature (h : s.Short) {line character : Int} {help : SignatureHelp}
    (hhelp : s.signature line character = some help) : help.activeParameter ≤ 2147483647 := by
  have htext := h.text
  rw [Snapshot.signature] at hhelp
  split at hhelp
  · cases hhelp
  · obtain ⟨⟨before, commas⟩, hopen, hcall⟩ := Option.bind_eq_some_iff.mp hhelp
    obtain ⟨callee, -, hcallee⟩ := Option.bind_eq_some_iff.mp hcall
    obtain ⟨symbol, -, hsymbol⟩ := Option.bind_eq_some_iff.mp hcallee
    split at hsymbol
    · obtain rfl := Option.some.inj hsymbol
      have hcommas := openCall?_commas_le hopen
      have htake := List.length_take_le' (Position.offsetOf s.text line character) s.text
      rw [List.length_reverse] at hcommas
      dsimp only
      omega
    · cases hsymbol

end Query.Snapshot

end ScriptLens
