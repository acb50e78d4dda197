import ScriptLens.Proofs.Syntax.Declarations
import ScriptLens.Proofs.Token.Cuts

/-!
# Where symbols stand

A symbol carries the line and the column of the declaration it comes from.  The declarations stand at tokens
of the text, one behind the other, so the symbols of a program come in the order of the text, and the text at
the place of a symbol starts with the word that its declaration stands at.

Main statement: `symbols_positions`.
-/

namespace ScriptLens

open scoped List

/-! ### Order of places -/

/-- Going on through a text leads down or to the right. -/
theorem Location.le_after (loc : Location) (text : List Char) :
    loc.line < (loc.after text).line ∨
      loc.line = (loc.after text).line ∧ loc.column ≤ (loc.after text).column := by
  rw [line_after]
  by_cases hfeed : '\n' ∈ text
  · left
    have hcount := List.count_pos_iff.mpr hfeed
    omega
  · right
    rw [List.count_eq_zero.mpr hfeed, column_after_of_not_mem loc hfeed]
    omega

/-- Of two places in a text, the one with the smaller offset stands above or to the left. -/
theorem Location.after_le_after (loc : Location) {a b x y : List Char} (h : a ++ x = b ++ y)
    (hlength : a.length ≤ b.length) :
    (loc.after a).line < (loc.after b).line ∨
      (loc.after a).line = (loc.after b).line ∧ (loc.after a).column ≤ (loc.after b).column := by
  have hb : (a ++ x).take b.length = b := by rw [h, List.take_left]
  rw [List.take_append, List.take_of_length_le hlength] at hb
  rw [← hb, after_append]
  exact le_after _ _

/-! ### Words at the places of declarations -/

/-- The text at the place of a declaration starts with the word that the declaration stands at. -/
structure Anchored (source : List Char) (a : Anchor) : Prop where
  line : 1 ≤ lineOf a.2
  column : 1 ≤ columnOf a.2
  name : ∀ name, a.1 = .identifier name →
    name.toList <+: source.drop (Position.offsetOf source (lineOf a.2 - 1) (columnOf a.2 - 1))
  word : ∀ word, a.1 = .keyword word →
    word.spelling.toList <+: source.drop (Position.offsetOf source (lineOf a.2 - 1) (columnOf a.2 - 1))

theorem anchored_of_mem {source : String} {file : Option String} {tokens : List Token}
    (h : Token.tokenize source file = .ok tokens) {t : Token} (ht : t ∈ tokens)
    (hkind : t.kind ≠ .eof) : Anchored source.toList t.anchor := by
  obtain ⟨before, c, cs, width, hsource, hloc, hscan⟩ :=
    Token.scan_of_mem_tokensFrom (Token.tokensFrom_of_tokenize h) ht hkind
  have hline : lineOf t.anchor.2 = 1 + (before.count '\n' : Nat) := by
    simp [Token.anchor, lineOf, hloc, Location.line_after, Location.start]
  have hcolumn : columnOf t.anchor.2 = 1 + (Text.lastWidth before : Nat) := by
    simp [Token.anchor, columnOf, hloc, Location.column_after_start]
  have hplace : source.toList.drop (Position.offsetOf source.toList (lineOf t.anchor.2 - 1)
      (columnOf t.anchor.2 - 1)) = c :: cs := by
    have hl : lineOf t.anchor.2 - 1 = (before.count '\n' : Nat) := by omega
    have hc : columnOf t.anchor.2 - 1 = (Text.lastWidth before : Nat) := by omega
    rw [hl, hc, hsource, Position.offsetOf_append, List.drop_left]
  obtain ⟨hname, hword⟩ := Token.isPrefix_of_scan hscan
  refine ⟨by omega, by omega, fun name hk => ?_, fun word hk => ?_⟩
  · rw [hplace]
    exact hname name hk
  · rw [hplace]
    exact hword word hk

/-- Anchors stand in the order of the text. -/
def Ascending (a b : Anchor) : Prop :=
  lineOf a.2 < lineOf b.2 ∨ lineOf a.2 = lineOf b.2 ∧ columnOf a.2 ≤ columnOf b.2

theorem ascending_anchors {source : String} {file : Option String} {tokens : List Token}
    (h : Token.tokenize source file = .ok tokens) :
    (tokens.map Token.anchor).Pairwise Ascending := by
  have hplaced := Token.placed_tokenize h
  refine List.pairwise_map.mpr (hplaced.ordered.imp_of_mem fun {t u} ht hu hlt => ?_)
  obtain ⟨before, behind, hsource, hloc⟩ := hplaced.reached t ht
  obtain ⟨before', behind', hsource', hloc'⟩ := hplaced.reached u hu
  have hlength : before.length ≤ before'.length := by
    rw [hloc, hloc', Location.offset_after, Location.offset_after] at hlt
    omega
  have hle := Location.after_le_after (.start file) (hsource.symm.trans hsource') hlength
  simpa [Ascending, Token.anchor, lineOf, columnOf, hloc, hloc'] using hle

/-! ### Symbols of declarations -/

/-- A symbol stands where its declaration does. -/
theorem place_of_mem_ownSymbols {s : Stmt} {symbol : Symbol} (h : symbol ∈ s.ownSymbols) :
    ∃ a, s.anchor? = some a ∧ symbol.line = lineOf a.2 ∧ symbol.column = columnOf a.2 := by
  cases s with
  | declare constant name value doc loc =>
      obtain rfl := List.mem_singleton.mp h
      exact ⟨_, rfl, rfl, rfl⟩
  | function name parameters body doc loc =>
      refine ⟨_, rfl, ?_⟩
      rcases List.mem_cons.mp h with rfl | h
      · exact ⟨rfl, rfl⟩
      · obtain ⟨parameter, -, rfl⟩ := List.mem_map.mp h
        exact ⟨rfl, rfl⟩
  | imports names source loc =>
      obtain ⟨name, -, rfl⟩ := List.mem_map.mp h
      exact ⟨_, rfl, rfl, rfl⟩
  | _ => cases h

/-- A text starts with the word that the declaration of a symbol stands at: the name of a variable, a
constant or a function, for a parameter the name of its function, and for an imported name the word `import`.
Entries of objects are members of other symbols only. -/
def Symbol.Heads (s : Symbol) (p : Program) (text : List Char) : Prop :=
  match s.kind with
  | .var | .constant | .function => s.name.toList <+: text
  | .parameter => ∃ name parameters body doc loc,
      Stmt.function name parameters body doc loc ∈ p.statements ∧
      s ∈ Symbol.ofFunction name parameters doc loc ∧ s.name ∈ parameters ∧ name.toList <+: text
  | .package => "import".toList <+: text
  | .property => False

theorem heads_of_mem_ownSymbols {source : List Char} {p : Program} {s : Stmt}
    (hs : s ∈ p.statements) {a : Anchor} (ha : s.anchor? = some a) (hanchored : Anchored source a)
    {symbol : Symbol} (h : symbol ∈ s.ownSymbols) :
    symbol.Heads p
      (source.drop (Position.offsetOf source (lineOf a.2 - 1) (columnOf a.2 - 1))) := by
  cases s with
  | declare constant name value doc loc =>
      obtain rfl := Option.some.inj ha
      obtain rfl := List.mem_singleton.mp h
      cases constant <;> exact hanchored.name name rfl
  | function name parameters body doc loc =>
      obtain rfl := Option.some.inj ha
      rcases List.mem_cons.mp h with rfl | hparameter
      · exact hanchored.name name rfl
      · obtain ⟨parameter, hmem, rfl⟩ := List.mem_map.mp hparameter
        exact ⟨name, parameters, body, doc, loc, hs, h, hmem, hanchored.name name rfl⟩
  | imports names path loc =>
      obtain rfl := Option.some.inj ha
      obtain ⟨name, -, rfl⟩ := List.mem_map.mp h
      exact hanchored.word .importWord rfl
  | _ => cases h

/-- The symbols of a program that was read from a text come in the order of the text. -/
theorem ascending_symbols {source : String} {file : Option String} {p : Program}
    (h : Syntax.read source file = .ok p) :
    p.symbols.Pairwise fun s u => s.line < u.line ∨ s.line = u.line ∧ s.column ≤ u.column := by
  obtain ⟨tokens, htokens, hprogram⟩ := Syntax.tokens_of_read h
  have hascending : (anchorsOf p.body).Pairwise Ascending :=
    (ascending_anchors htokens).sublist (Syntax.anchorsOf_sublist hprogram)
  rw [p.symbols_eq]
  refine List.pairwise_flatMap.mpr ⟨fun s _ => ?_, ?_⟩
  · -- the symbols of one declaration stand at the same place
    refine List.pairwise_of_forall_mem_list fun u hu v hv => Or.inr ?_
    obtain ⟨a, ha, hul, huc⟩ := place_of_mem_ownSymbols hu
    obtain ⟨b, hb, hvl, hvc⟩ := place_of_mem_ownSymbols hv
    obtain rfl : a = b := Option.some.inj (ha.symm.trans hb)
    omega
  · refine (List.pairwise_filterMap.mp hascending).imp fun {s s'} hanchors u hu v hv => ?_
    obtain ⟨a, ha, hul, huc⟩ := place_of_mem_ownSymbols hu
    obtain ⟨b, hb, hvl, hvc⟩ := place_of_mem_ownSymbols hv
    rw [hul, huc, hvl, hvc]
    exact hanchors a ha b hb

/-- The symbols of a program that was read from a text come in the order of the text, each at a line and a
column of it where the text starts with the word that the symbol's declaration stands at. -/
theorem symbols_positions {source : String} {file : Option String} {p : Program}
    (h : Syntax.read source file = .ok p) :
    (p.symbols.Pairwise fun s u => s.line < u.line ∨ s.line = u.line ∧ s.column ≤ u.column) ∧
    ∀ s ∈ p.symbols, 1 ≤ s.line ∧ 1 ≤ s.column ∧
      s.Heads p
        (source.toList.drop (Position.offsetOf source.toList (s.line - 1) (s.column - 1))) := by
  obtain ⟨tokens, htokens, hprogram⟩ := Syntax.tokens_of_read h
  have hsub := Syntax.anchorsOf_sublist hprogram
  have hanchored : ∀ a ∈ anchorsOf p.body, Anchored source.toList a := by
    intro a ha
    obtain ⟨t, ht, rfl⟩ := List.mem_map.mp (hsub.subset ha)
    exact anchored_of_mem htokens ht (Syntax.anchorsOf_ne_eof ha)
  refine ⟨ascending_symbols h, fun symbol hsymbol => ?_⟩
  rw [p.symbols_eq] at hsymbol
  obtain ⟨s, hs, hown⟩ := List.mem_flatMap.mp hsymbol
  obtain ⟨a, ha, hline, hcolumn⟩ := place_of_mem_ownSymbols hown
  have hat := hanchored a (List.mem_filterMap.mpr ⟨s, hs, ha⟩)
  rw [hline, hcolumn]
  exact ⟨hat.line, hat.column, heads_of_mem_ownSymbols hs ha hat hown⟩

/-- A text with a function between a variable and an import: the parameter stands where the function does, and
the constant in the body behind it. -/
theorem symbols_positions_function_body :
    ∃ p, Syntax.read "let a\nfn f(x) \x7b const b = x \x7d\nimport c from 'd'" none = .ok p ∧
      p.symbols.map (fun s => (s.name, s.kind, s.line, s.column)) =
        [("a", .var, 1, 5), ("f", .function, 2, 4), ("x", .parameter, 2, 4),
          ("b", .constant, 2, 17), ("c", .package, 3, 1)] ∧
      ∀ s ∈ p.symbols, s.Heads p
        ("let a\nfn f(x) \x7b const b = x \x7d\nimport c from 'd'".toList.drop
          (Position.offsetOf "let a\nfn f(x) \x7b const b = x \x7d\nimport c from 'd'".toList
            (s.line - 1) (s.column - 1))) := by
  have hsymbols : ((Syntax.read
      "let a\nfn f(x) \x7b const b = x \x7d\nimport c from 'd'" none).toOption.map fun p =>
        p.symbols.map fun s => (s.name, s.kind, s.line, s.column)) =
        some [("a", .var, 1, 5), ("f", .function, 2, 4), ("x", .parameter, 2, 4),
          ("b", .constant, 2, 17), ("c", .package, 3, 1)] := by
    decide +kernel
  cases hread : Syntax.read "let a\nfn f(x) \x7b const b = x \x7d\nimport c from 'd'" none with
  | error failure =>
      rw [hread] at hsymbols
      cases hsymbols
  | ok p =>
      rw [hread] at hsymbols
      exact ⟨p, rfl, Option.some.inj hsymbols, fun s hs => ((symbols_positions hread).2 s hs).2.2⟩

end ScriptLens
