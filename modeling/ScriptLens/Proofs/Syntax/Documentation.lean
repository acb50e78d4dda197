import ScriptLens.Proofs.Syntax.Declared

/-!
# Documentation of declarations

Documentation waits for the next token: a word that opens a declaration takes it along, and any other token lets
go of it.  So a declaration has the documentation that stands right before its word, and none if anything else
stands there, however deep in the program it is.

Main statement: `documentation_of_read`.
-/

namespace ScriptLens

/-- The documentation that the token before a place says, if it is documentation. -/
def docBefore (tokens : List Token) : (place : Nat) → Option String
  | 0 => none
  | i + 1 => tokens[i]?.bind (·.kind.doc?)

/-- A declaration opens at the place of its word, with its name right behind the word.  It is located where its
name stands. -/
structure Declaration.OpensAt (d : Declaration) (tokens : List Token) (place : Nat) : Prop where
  word : tokens[place]?.map Token.kind = some (.keyword d.word)
  name : tokens[place + 1]?.map Token.kind = some (.identifier d.name)
  location : tokens[place + 1]?.map Token.location = d.location

theorem docBefore_length (before rest : List Token) :
    docBefore (before ++ rest) before.length = before.getLast?.bind (·.kind.doc?) := by
  rcases List.eq_nil_or_concat before with rfl | ⟨init, last, rfl⟩
  · rfl
  · simp [docBefore]

namespace Syntax

/-- What is remembered of documentation is what the last token says. -/
theorem Recent.doc_after (before : List Token) :
    (({} : Recent).after (before.map Token.kind)).doc = before.getLast?.bind (·.kind.doc?) := by
  rcases List.eq_nil_or_concat before with rfl | ⟨init, last, rfl⟩
  · rfl
  · simp

/-- A program has each declaration with the documentation that stands before its word. -/
theorem exists_opensAt {tokens : List Token} {p : Program} (h : Ended tokens)
    (hp : programOf tokens = .ok p) {d : Declaration} (hd : d ∈ p.declarations) :
    ∃ place, d.OpensAt tokens place ∧ d.doc = docBefore tokens place := by
  rw [declarations_of_programOf h hp] at hd
  rcases Recent.exists_of_mem_declaredBy hd with
    ⟨t, rest, -, hopening, -⟩ | ⟨before, w, t, rest, rfl, hword, hname, hlocation, hdoc⟩
  · cases hopening
  · refine ⟨before.length, ⟨?_, ?_, ?_⟩, ?_⟩
    · simp [hword]
    · simp [hname]
    · simp [hlocation]
    · rw [hdoc, Recent.doc_after, docBefore_length]

/-- A declaration opens at one place, since no two tokens of a text stand at the same location. -/
theorem opensAt_unique {loc : Location} {text : List Char} {tokens : List Token}
    (h : Token.Placed loc text tokens) {d : Declaration} {i j : Nat} (hi : d.OpensAt tokens i)
    (hj : d.OpensAt tokens j) : i = j := by
  have hdistinct : (tokens.map Token.location).Nodup := by
    refine List.pairwise_map.mpr (h.ordered.imp fun {t u} hlt heq => ?_)
    rw [heq] at hlt
    exact Int.lt_irrefl _ hlt
  have hsame : (tokens.map Token.location)[i + 1]? = (tokens.map Token.location)[j + 1]? := by
    rw [List.getElem?_map, List.getElem?_map, hi.location, hj.location]
  obtain ⟨t, ht, -⟩ := Option.map_eq_some_iff.mp hi.name
  have hlength : i + 1 < (tokens.map Token.location).length := by
    rw [List.length_map]
    exact (List.getElem?_eq_some_iff.mp ht).1
  exact Nat.succ.inj ((List.getElem?_inj hlength hdistinct).mp hsame)

/-- In a program that was read from a text, every declaration, in functions without a name as well, opens at
exactly one place among the tokens of the text.  Its documentation is what the token before that place says, if that
token is documentation, and it has none otherwise. -/
theorem documentation_of_read {source : String} {file : Option String} {p : Program}
    (h : read source file = .ok p) :
    ∃ tokens, Token.tokenize source file = .ok tokens ∧
      ∀ d ∈ p.declarations, ∃ place, (∀ other, d.OpensAt tokens other ↔ other = place) ∧
        d.doc = docBefore tokens place := by
  obtain ⟨tokens, htokens, hprogram⟩ := tokens_of_read h
  refine ⟨tokens, htokens, fun d hd => ?_⟩
  obtain ⟨place, hopens, hdoc⟩ := exists_opensAt (ended_tokenize htokens) hprogram hd
  refine ⟨place, fun other => ⟨fun hother => ?_, ?_⟩, hdoc⟩
  · exact opensAt_unique (Token.placed_tokenize htokens) hother hopens
  · rintro rfl
    exact hopens

/-- Two pieces of documentation before one declaration, one in a function without a name, and one before a statement
that declares nothing. -/
theorem documentation_of_read_nested :
    ∃ source p tokens,
      source = "/// a\n\n/// b\nlet f = fn() \x7b /// c\nconst x = f; let y \x7d\n/// d\nf" ∧
      read source none = .ok p ∧ Token.tokenize source none = .ok tokens ∧
      p.declarations.map (fun d => (d.name, d.doc)) =
        [("f", some "b"), ("x", some "c"), ("y", none)] ∧
      ∀ d ∈ p.declarations, ∃ place, (∀ other, d.OpensAt tokens other ↔ other = place) ∧
        d.doc = docBefore tokens place := by
  have hnames : (read "/// a\n\n/// b\nlet f = fn() \x7b /// c\nconst x = f; let y \x7d\n/// d\nf" none).toOption.map
      (fun p => p.declarations.map fun d => (d.name, d.doc)) =
        some [("f", some "b"), ("x", some "c"), ("y", none)] := by
    decide +kernel
  cases hread : read "/// a\n\n/// b\nlet f = fn() \x7b /// c\nconst x = f; let y \x7d\n/// d\nf" none with
  | error failure =>
      rw [hread] at hnames
      cases hnames
  | ok p =>
      rw [hread] at hnames
      obtain ⟨tokens, htokens, hdocs⟩ := documentation_of_read hread
      exact ⟨_, p, tokens, rfl, hread, htokens, Option.some.inj hnames, hdocs⟩

end Syntax

end ScriptLens
