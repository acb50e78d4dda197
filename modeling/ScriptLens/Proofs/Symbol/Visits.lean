import ScriptLens.Proofs.Query.Returns

/-!
# Every statement is visited once

A statement has an address: its place in a list of statements, and the way from there into the statements that hold it.
The symbols of a program are those of its statements in the order of their addresses, each statement once, whatever the
tree looks like.  So the outline of a document has as many entries as its tree has declarations.

Main statements: `exists_addresses` and `symbols_in_order`.
-/

namespace ScriptLens

/-! ### Addresses -/

/-- The list of statements that a part of a foreign statement is, if it is one. -/
def Slot.sequences : Slot → List (List Stmt)
  | .absent => []
  | .text _ => []
  | .statements body => [body]

/-- The lists of statements right inside a statement: its body, its branch and its other branch. -/
def Stmt.sequences : Stmt → List (List Stmt)
  | .function _ _ body _ _ => [body]
  | .conditional _ body otherwise _ => body :: otherwise.toList
  | .loop _ body _ => [body]
  | .foreign body thenBranch elseBranch _ =>
      body.sequences ++ thenBranch.sequences ++ elseBranch.sequences
  | _ => []

mutual

/-- What is found in a statement at the rest of an address.  The first number chooses one of its lists. -/
def Stmt.at? (s : Stmt) : List Nat → Option Stmt
  | [] => some s
  | k :: more => s.sequences[k]?.bind fun inner => statementAt? inner more

/-- The statement at an address.  The first number chooses a statement of the list. -/
def statementAt? (body : List Stmt) : List Nat → Option Stmt
  | [] => none
  | i :: more => body[i]?.bind fun s => s.at? more

end

/-- One address comes before another: it leads to a statement around the other's, or they part at a smaller number. -/
abbrev Before : List Nat → List Nat → Prop :=
  List.Lex (· < ·)

theorem Stmt.walk_eq (s : Stmt) : s.walk = s :: s.sequences.flatMap walkOf := by
  have hslot : ∀ slot : Slot, slot.walk = slot.sequences.flatMap walkOf := by
    intro slot
    cases slot <;> simp [Slot.walk, Slot.sequences]
  cases s with
  | conditional condition body otherwise loc => cases otherwise <;> simp [walk, sequences]
  | foreign body thenBranch elseBranch loc => simp [walk, sequences, hslot]
  | _ => simp [walk, sequences]

theorem walkOf_eq (body : List Stmt) : walkOf body = body.flatMap Stmt.walk := by
  induction body with
  | nil => simp [walkOf]
  | cons s rest ih => simp [walkOf, ih]

theorem Stmt.sizeOf_lt {s u : Stmt} {inner : List Stmt} (hinner : inner ∈ s.sequences) (hu : u ∈ inner) :
    sizeOf u < sizeOf s := by
  have hlt := List.sizeOf_lt_of_mem hu
  have hslot : ∀ slot : Slot, inner ∈ slot.sequences → sizeOf inner < sizeOf slot := by
    intro slot hslot
    cases slot with
    | statements body =>
        obtain rfl := List.mem_singleton.mp hslot
        simp only [Slot.statements.sizeOf_spec]
        omega
    | _ => cases hslot
  cases s with
  | function name parameters body doc loc =>
      obtain rfl := List.mem_singleton.mp hinner
      simp only [Stmt.function.sizeOf_spec]
      omega
  | conditional condition body otherwise loc =>
      rcases List.mem_cons.mp hinner with rfl | hinner
      · simp only [Stmt.conditional.sizeOf_spec]
        omega
      · obtain rfl := Option.mem_toList.mp hinner
        simp only [Stmt.conditional.sizeOf_spec, Option.some.sizeOf_spec]
        omega
  | loop condition body loc =>
      obtain rfl := List.mem_singleton.mp hinner
      simp only [Stmt.loop.sizeOf_spec]
      omega
  | foreign body thenBranch elseBranch loc =>
      rw [sequences, List.mem_append, List.mem_append] at hinner
      have hparts := hinner.imp (Or.imp (hslot body) (hslot thenBranch)) (hslot elseBranch)
      simp only [Stmt.foreign.sizeOf_spec]
      omega
  | _ => cases hinner

/-- What holds of a statement if it holds of the statements right inside it holds of every statement. -/
@[elab_as_elim]
theorem Stmt.nested_induction {motive : Stmt → Prop}
    (step : ∀ s : Stmt, (∀ inner ∈ s.sequences, ∀ u ∈ inner, motive u) → motive s) (s : Stmt) : motive s :=
  step s fun _ hinner u hu =>
    have := Stmt.sizeOf_lt hinner hu
    nested_induction step u
termination_by sizeOf s

/-! ### Listings in the order of addresses -/

/-- What is found along an address whose first number chooses an element of a list. -/
def among {α : Type} (find : α → List Nat → Option Stmt) (xs : List α) : List Nat → Option Stmt
  | [] => none
  | i :: more => xs[i]?.bind fun x => find x more

/-- A list has every statement that can be found once, in the order of the addresses. -/
structure Enumerates (find : List Nat → Option Stmt) (addresses : List (List Nat)) (statements : List Stmt) :
    Prop where
  ascending : addresses.Pairwise Before
  complete : ∀ a, a ∈ addresses ↔ (find a).isSome = true
  found : addresses.map find = statements.map some

theorem statementAt?_eq (body : List Stmt) : statementAt? body = among Stmt.at? body := by
  funext address
  cases address <;> rfl

/-- An address in a list chooses one of the elements first. -/
theorem Enumerates.exists_cons {α : Type} {find : α → List Nat → Option Stmt} {xs : List α}
    {addresses : List (List Nat)} {statements : List Stmt} (h : Enumerates (among find xs) addresses statements)
    {a : List Nat} (ha : a ∈ addresses) : ∃ i more, a = i :: more := by
  cases a with
  | nil => cases (h.complete []).mp ha
  | cons i more => exact ⟨i, more, rfl⟩

/-- A statement comes before those in it. -/
theorem Enumerates.within {s : Stmt} {addresses : List (List Nat)} {statements : List Stmt}
    (h : Enumerates (among statementAt? s.sequences) addresses statements) :
    Enumerates s.at? ([] :: addresses) (s :: statements) := by
  have hat : ∀ a ∈ addresses, among statementAt? s.sequences a = s.at? a := by
    intro a ha
    obtain ⟨k, more, rfl⟩ := h.exists_cons ha
    rfl
  refine ⟨List.pairwise_cons.mpr ⟨?_, h.ascending⟩, ?_, ?_⟩
  · intro a ha
    obtain ⟨k, more, rfl⟩ := h.exists_cons ha
    exact .nil
  · intro a
    cases a with
    | nil => simp [Stmt.at?]
    | cons k more => simpa [Stmt.at?, among] using h.complete (k :: more)
  · rw [List.map_cons, ← List.map_congr_left hat, h.found]
    rfl

/-- The statements of a list come one after the other, each with all statements in it. -/
theorem Enumerates.cons {α : Type} {find : α → List Nat → Option Stmt} {x : α} {xs : List α}
    {first rest : List (List Nat)} {statements others : List Stmt} (hx : Enumerates (find x) first statements)
    (hxs : Enumerates (among find xs) rest others) :
    Enumerates (among find (x :: xs)) (first.map (0 :: ·) ++ rest.map (List.modifyHead (· + 1)))
      (statements ++ others) := by
  refine ⟨List.pairwise_append.mpr ⟨?_, ?_, ?_⟩, ?_, ?_⟩
  · exact hx.ascending.map _ fun _ _ hbefore => .cons hbefore
  · refine List.pairwise_map.mpr (hxs.ascending.imp_of_mem ?_)
    intro a b ha hb hbefore
    obtain ⟨i, more, rfl⟩ := hxs.exists_cons ha
    obtain ⟨j, others, rfl⟩ := hxs.exists_cons hb
    cases hbefore with
    | cons hmore => exact .cons hmore
    | rel hlt => exact .rel (Nat.succ_lt_succ hlt)
  · intro a ha b hb
    obtain ⟨more, -, rfl⟩ := List.mem_map.mp ha
    obtain ⟨c, hc, rfl⟩ := List.mem_map.mp hb
    obtain ⟨i, more', rfl⟩ := hxs.exists_cons hc
    exact .rel (Nat.succ_pos i)
  · intro a
    rw [List.mem_append, List.mem_map, List.mem_map]
    constructor
    · rintro (⟨more, hmore, rfl⟩ | ⟨c, hc, rfl⟩)
      · exact (hx.complete more).mp hmore
      · obtain ⟨i, more, rfl⟩ := hxs.exists_cons hc
        exact (hxs.complete (i :: more)).mp hc
    · intro hsome
      rcases a with _ | ⟨_ | i, more⟩
      · cases hsome
      · exact .inl ⟨more, (hx.complete more).mpr hsome, rfl⟩
      · exact .inr ⟨i :: more, (hxs.complete (i :: more)).mpr hsome, rfl⟩
  · have hrest : ∀ a ∈ rest, among find (x :: xs) (a.modifyHead (· + 1)) = among find xs a := by
      intro a ha
      obtain ⟨i, more, rfl⟩ := hxs.exists_cons ha
      rfl
    rw [List.map_append, List.map_map, List.map_map, List.map_append, ← hx.found, ← hxs.found]
    exact congrArg _ (List.map_congr_left hrest)

theorem exists_addresses_among {α : Type} {find : α → List Nat → Option Stmt} {listing : α → List Stmt} {xs : List α}
    (h : ∀ x ∈ xs, ∃ addresses, Enumerates (find x) addresses (listing x)) :
    ∃ addresses, Enumerates (among find xs) addresses (xs.flatMap listing) := by
  induction xs with
  | nil =>
      refine ⟨[], .nil, fun a => ?_, rfl⟩
      cases a <;> simp [among]
  | cons x xs ih =>
      obtain ⟨first, hfirst⟩ := h x List.mem_cons_self
      obtain ⟨rest, hrest⟩ := ih fun y hy => h y (List.mem_cons_of_mem x hy)
      exact ⟨_, hfirst.cons hrest⟩

theorem exists_addresses_of_forall {body : List Stmt}
    (h : ∀ s ∈ body, ∃ addresses, Enumerates s.at? addresses s.walk) :
    ∃ addresses, Enumerates (statementAt? body) addresses (walkOf body) := by
  rw [statementAt?_eq, walkOf_eq]
  exact exists_addresses_among h

theorem Stmt.exists_addresses (s : Stmt) : ∃ addresses, Enumerates s.at? addresses s.walk := by
  induction s using Stmt.nested_induction with
  | step s ih =>
      obtain ⟨addresses, h⟩ := exists_addresses_among fun inner hinner => exists_addresses_of_forall (ih inner hinner)
      rw [walk_eq]
      exact ⟨_, h.within⟩

/-- The statements of a program are listed in the order of their addresses, each once. -/
theorem exists_addresses (p : Program) :
    ∃ addresses, Enumerates (statementAt? p.body) addresses p.statements :=
  exists_addresses_of_forall fun s _ => s.exists_addresses

/-! ### Symbols -/

/-- What a statement declares itself, in the order in which it names it. -/
def Stmt.declared : Stmt → List (SymbolKind × String)
  | .declare constant name _ _ _ => [(if constant then .constant else .var, name)]
  | .function name parameters _ _ _ => (.function, name) :: parameters.map (.parameter, ·)
  | .imports names _ _ => names.map (.package, ·)
  | _ => []

mutual

/-- How many variables, constants, functions, parameters and imported names a statement declares. -/
def Stmt.declarationCount : Stmt → Nat
  | .declare _ _ _ _ _ => 1
  | .function _ parameters body _ _ => 1 + parameters.length + declarationCountOf body
  | .imports names _ _ => names.length
  | .conditional _ body none _ => declarationCountOf body
  | .conditional _ body (some otherwise) _ => declarationCountOf body + declarationCountOf otherwise
  | .loop _ body _ => declarationCountOf body
  | .foreign body thenBranch elseBranch _ =>
      body.declarationCount + thenBranch.declarationCount + elseBranch.declarationCount
  | _ => 0

/-- How many names a part of a foreign statement declares. -/
def Slot.declarationCount : Slot → Nat
  | .absent => 0
  | .text _ => 0
  | .statements body => declarationCountOf body

/-- How many names a list of statements declares. -/
def declarationCountOf : List Stmt → Nat
  | [] => 0
  | s :: rest => s.declarationCount + declarationCountOf rest

end

/-- A symbol has the kind and the name of what is declared. -/
theorem Stmt.map_ownSymbols (s : Stmt) : s.ownSymbols.map (fun u => (u.kind, u.name)) = s.declared := by
  cases s <;> simp [ownSymbols, declared, Symbol.ofDeclaration, Symbol.ofFunction, Symbol.ofImport]

theorem symbolsOf_eq_flatMap (body : List Stmt) : symbolsOf body = body.flatMap Stmt.symbols := by
  induction body with
  | nil => simp [symbolsOf]
  | cons s rest ih => simp [symbolsOf, ih]

/-- The symbols of a statement are its own, and then those of the statements right inside it. -/
theorem Stmt.symbols_eq_append (s : Stmt) : s.symbols = s.ownSymbols ++ symbolsOf s.sequences.flatten := by
  have hinner : s.sequences.flatMap walkOf = walkOf s.sequences.flatten := by
    rw [walkOf_eq, List.flatten_eq_flatMap, List.flatMap_assoc, funext walkOf_eq]
    rfl
  rw [symbols_eq, walk_eq, List.flatMap_cons, hinner, symbolsOf_eq]

theorem declarationCountOf_append (a b : List Stmt) :
    declarationCountOf (a ++ b) = declarationCountOf a + declarationCountOf b := by
  induction a with
  | nil => simp [declarationCountOf]
  | cons s rest ih => simp [declarationCountOf, ih, Nat.add_assoc]

/-- A statement counts what it declares itself and what is declared right inside it. -/
theorem Stmt.declarationCount_eq (s : Stmt) :
    s.declarationCount = s.declared.length + declarationCountOf s.sequences.flatten := by
  have hslot : ∀ slot : Slot, slot.declarationCount = declarationCountOf slot.sequences.flatten := by
    intro slot
    cases slot <;> simp [Slot.declarationCount, Slot.sequences, declarationCountOf]
  cases s with
  | conditional condition body otherwise loc =>
      cases otherwise <;> simp [declarationCount, declared, sequences, declarationCountOf_append]
  | foreign body thenBranch elseBranch loc =>
      simp [declarationCount, declared, sequences, hslot, declarationCountOf_append, Nat.add_assoc]
  | _ => simp [declarationCount, declared, sequences, declarationCountOf, Nat.add_comm]

theorem length_symbolsOf_of_forall {body : List Stmt} (h : ∀ s ∈ body, s.symbols.length = s.declarationCount) :
    (symbolsOf body).length = declarationCountOf body := by
  induction body with
  | nil => simp [symbolsOf, declarationCountOf]
  | cons s rest ih =>
      have hs := h s List.mem_cons_self
      have hrest := ih fun u hu => h u (List.mem_cons_of_mem s hu)
      rw [symbolsOf, List.length_append, hs, hrest, declarationCountOf]

theorem Stmt.length_symbols (s : Stmt) : s.symbols.length = s.declarationCount := by
  induction s using Stmt.nested_induction with
  | step s ih =>
      have hown : s.ownSymbols.length = s.declared.length := by
        rw [← map_ownSymbols, List.length_map]
      have hinner : (symbolsOf s.sequences.flatten).length = declarationCountOf s.sequences.flatten := by
        apply length_symbolsOf_of_forall
        intro u hu
        obtain ⟨inner, hinner, hmem⟩ := List.mem_flatten.mp hu
        exact ih inner hinner u hmem
      rw [symbols_eq_append, List.length_append, hown, hinner, declarationCount_eq]

/-! ### The outline -/

/-- A statement stands at a line, and the protocol has the places of all that it declares. -/
structure Stmt.Placed (s : Stmt) : Prop where
  line : 0 < lineOf s.location
  lastLine : lineOf s.location - 1 ≤ maxFieldValue
  width : ∀ entry ∈ s.declared, max 0 (columnOf s.location - 1) + entry.2.length ≤ maxFieldValue

theorem Stmt.location_of_mem_ownSymbols {s : Stmt} {symbol : Symbol} (h : symbol ∈ s.ownSymbols) :
    symbol.line = lineOf s.location ∧ symbol.column = columnOf s.location := by
  obtain ⟨a, ha, hline, hcolumn⟩ := place_of_mem_ownSymbols h
  have hloc : a.2 = s.location := by
    cases s <;> cases ha <;> rfl
  rw [hline, hcolumn, hloc]
  exact ⟨rfl, rfl⟩

theorem Stmt.Placed.range {s : Stmt} (h : s.Placed) {symbol : Symbol} (hsymbol : symbol ∈ s.ownSymbols) :
    symbol.isDeclared = true ∧ ∃ range, symbol.range = .ok range ∧ range.Bounded := by
  obtain ⟨hline, hcolumn⟩ := location_of_mem_ownSymbols hsymbol
  have hdeclared : (symbol.kind, symbol.name) ∈ s.declared := by
    rw [← map_ownSymbols]
    exact List.mem_map_of_mem hsymbol
  have hwidth := h.width _ hdeclared
  have hfirst := h.line
  have hlast := h.lastLine
  have hmax : maxFieldValue = 2147483647 := rfl
  rw [← hline] at hfirst hlast
  rw [← hcolumn] at hwidth
  dsimp only at hwidth
  refine ⟨decide_eq_true hfirst, ?_⟩
  rw [Symbol.range]
  apply Range.exists_onLine <;> omega

/-- The outline has an entry for each declaration, if the protocol has the places of all of them. -/
theorem exists_outline_of_placed (source uri : String) {p : Program}
    (h : ∀ s ∈ p.statements, s.declared ≠ [] → s.Placed) :
    ∃ entries, Query.Snapshot.outline ⟨source, uri, some p⟩ = .ok entries ∧
      entries.length = declarationCountOf p.body := by
  have hplaced : ∀ symbol ∈ p.symbols,
      symbol.isDeclared = true ∧ ∃ range, symbol.range = .ok range ∧ range.Bounded := by
    intro symbol hsymbol
    rw [Program.symbols_eq] at hsymbol
    obtain ⟨s, hs, hown⟩ := List.mem_flatMap.mp hsymbol
    refine (h s hs ?_).range hown
    rw [← Stmt.map_ownSymbols]
    exact List.map_eq_nil_iff.not.mpr (List.ne_nil_of_mem hown)
  have hall : p.symbols.filter Symbol.isDeclared = p.symbols :=
    List.filter_eq_self.mpr fun symbol hsymbol => (hplaced symbol hsymbol).1
  obtain ⟨entries, hentries, hlength, -⟩ := exists_outline_of_range fun symbol hsymbol => (hplaced symbol hsymbol).2
  refine ⟨entries, ?_, ?_⟩
  · rw [Query.Snapshot.outline]
    change (p.symbols.filter Symbol.isDeclared).mapM Symbol.toOutline = .ok entries
    rw [hall, hentries]
  · rw [hlength]
    exact length_symbolsOf_of_forall fun s _ => s.length_symbols

/-- The symbols of a program are those of its statements in the order of their addresses, each statement once: what a
statement declares itself, and then the symbols of the lists in it.  If every declaration has a line, and the protocol
has its place, the outline has as many entries as there are declarations. -/
theorem symbols_in_order (p : Program) :
    (∃ addresses, Enumerates (statementAt? p.body) addresses p.statements) ∧
    p.symbols = p.statements.flatMap Stmt.ownSymbols ∧
    p.symbols = p.body.flatMap Stmt.symbols ∧
    (∀ s : Stmt, s.symbols = s.ownSymbols ++ s.sequences.flatten.flatMap Stmt.symbols ∧
      s.ownSymbols.map (fun symbol => (symbol.kind, symbol.name)) = s.declared) ∧
    ∀ source uri : String, (∀ s ∈ p.statements, s.declared ≠ [] → s.Placed) →
      ∃ entries, Query.Snapshot.outline ⟨source, uri, some p⟩ = .ok entries ∧
        entries.length = declarationCountOf p.body := by
  refine ⟨exists_addresses p, p.symbols_eq, symbolsOf_eq_flatMap p.body, fun s => ⟨?_, s.map_ownSymbols⟩,
    fun source uri => exists_outline_of_placed source uri⟩
  rw [s.symbols_eq_append, symbolsOf_eq_flatMap]

/-- A foreign statement that holds a function with a variable in it, a text and an import. -/
theorem symbols_in_order_foreign :
    ∃ entries, Query.Snapshot.outline ⟨"", "", some ⟨[.foreign
        (.statements [.function "f" ["x"] [.declare false "y" none none (some ⟨2, 3, 12, none⟩)] none
          (some ⟨1, 4, 3, none⟩)])
        (.text "z") (.statements [.imports ["a"] "m" (some ⟨3, 1, 20, none⟩)]) none], none⟩⟩ = .ok entries ∧
      entries.length = 4 := by
  obtain ⟨-, -, -, -, houtline⟩ := symbols_in_order ⟨[.foreign
    (.statements [.function "f" ["x"] [.declare false "y" none none (some ⟨2, 3, 12, none⟩)] none
      (some ⟨1, 4, 3, none⟩)])
    (.text "z") (.statements [.imports ["a"] "m" (some ⟨3, 1, 20, none⟩)]) none], none⟩
  obtain ⟨entries, hentries, hlength⟩ := houtline "" "" <| by
    intro s hs hdeclared
    simp only [Program.statements, walkOf, Stmt.walk, Slot.walk, List.mem_cons, List.not_mem_nil, or_false,
      List.append_nil, List.cons_append, List.nil_append] at hs
    rcases hs with rfl | rfl | rfl | rfl
    · exact absurd rfl hdeclared
    all_goals constructor <;> decide
  refine ⟨entries, hentries, hlength.trans ?_⟩
  simp [declarationCountOf, Stmt.declarationCount, Slot.declarationCount]

end ScriptLens
