import ScriptLens.Proofs.Syntax.Declarations
import ScriptLens.Proofs.Syntax.Declared

/-!
# The symbols of variables and constants

Every `let` and every `const` of a text that can be read declares the name right behind it, unless it is the name
of a member.  The symbols of a program are those of the declarations outside of expressions: a function in an
expression is not looked into.  So the symbols of variables and constants are those of all these words exactly if
no function in an expression declares one.

Main statement: `variable_symbols`.
-/

namespace ScriptLens

/-- A word that declares a variable or a constant. -/
@[simp] def Keyword.declaresVariable : Keyword → Bool
  | .letWord | .constWord => true
  | _ => false

/-- The declaration of a variable or a constant. -/
def Declaration.isVariable (d : Declaration) : Bool :=
  d.word.declaresVariable

/-- The symbol of a variable or a constant. -/
def Symbol.isVariable (s : Symbol) : Bool :=
  s.kind = .var || s.kind = .constant

/-! ### The words of a text -/

/-- A token that is such a word, wherever it stands. -/
@[simp] def Kind.isVariableWord : Kind → Bool
  | .keyword word => word.declaresVariable
  | _ => false

/-- What stands right behind each word that declares a variable or a constant, unless a dot stands right before
the word. -/
def kindsDeclared (afterDot : Bool) : List Kind → List (Option Kind)
  | [] => []
  | kind :: rest =>
      (if kind.isVariableWord && !afterDot then [rest.head?] else []) ++
        kindsDeclared (kind = .mark .dot) rest

/-- The name that a declaration gives, as it stands in the text. -/
def Declaration.nameKind (d : Declaration) : Option Kind :=
  some (.identifier d.name)

namespace Syntax

variable {t : Token} {r next : Reading}

/-- The last token is a word that declares a variable or a constant. -/
def Recent.opensVariable (recent : Recent) : Bool :=
  recent.opening.any (·.1.declaresVariable)

theorem Recent.opensVariable_next (recent : Recent) (kind : Kind) :
    (recent.next kind).opensVariable = (kind.isVariableWord && !recent.dot) := by
  cases kind with
  | keyword word => cases word <;> cases h : recent.dot <;> simp [opensVariable, h]
  | _ => rfl

/-- Behind such a word stands a name. -/
theorem Reading.name_of_step (hopens : r.recent.opensVariable = true) (h : r.step t = .ok next) :
    ∃ name, t.kind = .identifier name := by
  cases r with
  | declaredName constant doc scope =>
      unfold step at h
      dsimp only at h
      split at h
      · exact ⟨_, ‹_›⟩
      · cases h
  | parameters owner => cases owner <;> cases hopens
  | _ => cases hopens

/-- A declaration is one of a variable or a constant exactly if such a word opens it. -/
theorem Recent.isVariable_of_declared? {recent : Recent} {d : Declaration}
    (h : recent.declared? t = some d) :
    d.isVariable = recent.opensVariable ∧ some t.kind = d.nameKind := by
  cases hopening : recent.opening with
  | none => simp [hopening] at h
  | some opening =>
      cases hkind : t.kind with
      | identifier name =>
          obtain rfl : ⟨opening.1, name, opening.2, some t.location⟩ = d := by
            simpa [declared?, hopening, hkind, Kind.name?] using h
          exact ⟨by simp [Declaration.isVariable, opensVariable, hopening], rfl⟩
      | _ => simp [declared?, hopening, hkind, Kind.name?] at h

/-- A token that can be read behind such a word completes a declaration. -/
theorem Reading.filter_declared? (h : r.step t = .ok next) :
    ((r.recent.declared? t).toList.filter Declaration.isVariable).map Declaration.nameKind =
      if r.recent.opensVariable then [some t.kind] else [] := by
  cases hdeclared : r.recent.declared? t with
  | some d =>
      obtain ⟨hvariable, hname⟩ := Recent.isVariable_of_declared? hdeclared
      rw [hname, Option.toList_some, List.filter_cons, hvariable]
      cases r.recent.opensVariable <;> rfl
  | none =>
      cases hopens : r.recent.opensVariable with
      | false => rfl
      | true =>
          obtain ⟨name, hname⟩ := name_of_step hopens h
          cases hopening : r.recent.opening with
          | none => simp [Recent.opensVariable, hopening] at hopens
          | some opening => simp [Recent.declared?, hopening, hname, Kind.name?] at hdeclared

/-- What stands behind these words in a text is what its declarations are called. -/
theorem Reading.kindsDeclared_takeAll {tokens : List Token} (hr : r.recent.ended = false)
    (hkinds : ∀ t ∈ tokens, t.kind ≠ .eof) (h : r.takeAll tokens = .ok next) (rest : List Kind) :
    (if r.recent.opensVariable then [(tokens.map Token.kind ++ rest).head?] else []) ++
        kindsDeclared r.recent.dot (tokens.map Token.kind ++ rest) =
      ((r.recent.declaredBy tokens).filter Declaration.isVariable).map Declaration.nameKind ++
        ((if next.recent.opensVariable then [rest.head?] else []) ++
          kindsDeclared next.recent.dot rest) := by
  induction tokens generalizing r with
  | nil =>
      cases h
      simp [Recent.declaredBy]
  | cons t ts ih =>
      obtain ⟨s, hstep, hrest⟩ := Reading.exists_step h
      have hs := recent_step hr hstep
      have hended : s.recent.ended = false := by
        simpa [hs] using hkinds t List.mem_cons_self
      have hbehind := ih hended (fun u hu => hkinds u (List.mem_cons_of_mem t hu)) hrest
      rw [hs, Recent.opensVariable_next] at hbehind
      rw [Recent.declaredBy, List.filter_append, List.map_append, filter_declared? hstep,
        List.append_assoc, ← hbehind]
      rfl

end Syntax

/-! ### Declarations outside of expressions -/

/-- What a statement declares itself. -/
@[simp] def Stmt.ownDeclarations : Stmt → List Declaration
  | .declare constant name _ doc loc => [⟨.ofDeclaration constant, name, doc, loc⟩]
  | .function name _ _ doc loc => [⟨.fnWord, name, doc, loc⟩]
  | _ => []

/-- The expressions of a statement. -/
@[simp] def Stmt.expressions : Stmt → List Expr
  | .declare _ _ value _ _ => value.toList
  | .conditional condition _ _ _ => [condition]
  | .loop condition _ _ => [condition]
  | .result value _ => value.toList
  | .expression value _ => [value]
  | _ => []

/-- What a statement declares in its expressions. -/
@[simp] def Stmt.hidden (s : Stmt) : List Declaration :=
  s.expressions.flatMap Expr.declarations

/-- The third list has the entries of the first two, those of each in their order. -/
inductive Merged {α : Type} : List α → List α → List α → Prop
  | nil : Merged [] [] []
  | left {xs ys zs : List α} (a : α) (h : Merged xs ys zs) : Merged (a :: xs) ys (a :: zs)
  | right {xs ys zs : List α} (a : α) (h : Merged xs ys zs) : Merged xs (a :: ys) (a :: zs)

namespace Merged

variable {α : Type} {xs ys zs xs' ys' zs' : List α}

theorem rights : (ys : List α) → Merged [] ys ys
  | [] => .nil
  | y :: ys => .right y (rights ys)

theorem append (h : Merged xs ys zs) (h' : Merged xs' ys' zs') :
    Merged (xs ++ xs') (ys ++ ys') (zs ++ zs') := by
  induction h with
  | nil => exact h'
  | left a _ ih => exact .left a ih
  | right a _ ih => exact .right a ih

theorem filter (h : Merged xs ys zs) (p : α → Bool) :
    Merged (xs.filter p) (ys.filter p) (zs.filter p) := by
  induction h with
  | nil => exact .nil
  | left a _ ih =>
      cases hp : p a with
      | true => simpa [hp] using ih.left a
      | false => simpa [hp] using ih
  | right a _ ih =>
      cases hp : p a with
      | true => simpa [hp] using ih.right a
      | false => simpa [hp] using ih

theorem mem_of_left (h : Merged xs ys zs) {a : α} (ha : a ∈ xs) : a ∈ zs := by
  induction h with
  | nil => exact ha
  | left b _ ih =>
      rcases List.mem_cons.mp ha with rfl | ha
      · exact List.mem_cons_self
      · exact List.mem_cons_of_mem b (ih ha)
  | right b _ ih => exact List.mem_cons_of_mem b (ih ha)

theorem length_eq (h : Merged xs ys zs) : zs.length = xs.length + ys.length := by
  induction h with
  | nil => rfl
  | left a _ ih =>
      simp only [List.length_cons, ih]
      omega
  | right a _ ih =>
      simp only [List.length_cons, ih]
      omega

theorem eq_of_right_nil (h : Merged xs [] zs) : xs = zs := by
  generalize hys : ([] : List α) = ys at h
  induction h with
  | nil => rfl
  | left a _ ih => rw [ih hys]
  | right a _ ih => cases hys

/-- The first list is as long as the third exactly if the second is empty. -/
theorem length_eq_iff (h : Merged xs ys zs) : xs.length = zs.length ↔ ys = [] := by
  rw [h.length_eq, ← List.length_eq_zero_iff]
  omega

theorem map_eq_iff {β : Type} (h : Merged xs ys zs) (f : α → β) : xs.map f = zs.map f ↔ ys = [] := by
  constructor
  · intro hmap
    apply h.length_eq_iff.mp
    simpa using congrArg List.length hmap
  · rintro rfl
    rw [h.eq_of_right_nil]

end Merged

mutual

/-- The declarations of a statement are those outside of expressions and those in them. -/
theorem Stmt.merged : (s : Stmt) →
    Merged (s.walk.flatMap Stmt.ownDeclarations) (s.walk.flatMap Stmt.hidden) s.declarations
  | .declare _ _ none _ _ => by
      simpa [Stmt.walk] using Merged.nil.left _
  | .declare _ _ (some value) _ _ => by
      simpa [Stmt.walk] using
        (Merged.rights value.declarations).left _
  | .function _ _ body _ _ => by
      simpa [Stmt.walk] using
        (merged_stmts body).left _
  | .imports _ _ _ => by
      simpa [Stmt.walk] using Merged.nil
  | .conditional condition body none _ => by
      simpa [Stmt.walk] using
        (Merged.rights condition.declarations).append (merged_stmts body)
  | .conditional condition body (some otherwise) _ => by
      simpa [Stmt.walk] using
        (Merged.rights condition.declarations).append
          ((merged_stmts body).append (merged_stmts otherwise))
  | .loop condition body _ => by
      simpa [Stmt.walk] using
        (Merged.rights condition.declarations).append (merged_stmts body)
  | .result none _ => by
      simpa [Stmt.walk] using Merged.nil
  | .result (some value) _ => by
      simpa [Stmt.walk] using
        Merged.rights value.declarations
  | .expression value _ => by
      simpa [Stmt.walk] using
        Merged.rights value.declarations
  | .foreign body thenBranch elseBranch _ => by
      simpa [Stmt.walk] using
        body.merged.append (thenBranch.merged.append elseBranch.merged)

theorem Slot.merged : (slot : Slot) →
    Merged (slot.walk.flatMap Stmt.ownDeclarations) (slot.walk.flatMap Stmt.hidden) slot.declarations
  | .absent => by simpa [Slot.walk] using Merged.nil
  | .text _ => by simpa [Slot.walk] using Merged.nil
  | .statements body => by simpa [Slot.walk] using merged_stmts body

theorem merged_stmts : (body : List Stmt) →
    Merged ((walkOf body).flatMap Stmt.ownDeclarations) ((walkOf body).flatMap Stmt.hidden)
      (stmtDeclarations body)
  | [] => by simpa [walkOf] using Merged.nil
  | s :: rest => by simpa [walkOf] using s.merged.append (merged_stmts rest)

end

/-- The declarations of a program outside of expressions. -/
def Program.visible (p : Program) : List Declaration :=
  p.statements.flatMap Stmt.ownDeclarations

/-- The declarations of a program in expressions. -/
def Program.hidden (p : Program) : List Declaration :=
  p.statements.flatMap Stmt.hidden

theorem Program.merged (p : Program) : Merged p.visible p.hidden p.declarations :=
  merged_stmts p.body

/-! ### Symbols -/

/-- A statement has the symbols of the variables and constants that it declares. -/
theorem Stmt.variable_names (s : Stmt) :
    (s.ownSymbols.filter Symbol.isVariable).map Symbol.name =
      (s.ownDeclarations.filter Declaration.isVariable).map Declaration.name := by
  cases s with
  | declare constant name value doc loc => cases constant <;> rfl
  | function name parameters body doc loc =>
      have hnone : ∀ symbol ∈ Symbol.ofFunction name parameters doc loc,
          ¬symbol.isVariable = true := by
        intro symbol hsymbol
        rcases List.mem_cons.mp hsymbol with rfl | hparameter
        · simp [Symbol.isVariable]
        · obtain ⟨parameter, -, rfl⟩ := List.mem_map.mp hparameter
          simp [Symbol.isVariable]
      rw [Stmt.ownSymbols, List.filter_eq_nil_iff.mpr hnone]
      rfl
  | imports names source loc =>
      have hnone : ∀ symbol ∈ Symbol.ofImport names source loc, ¬symbol.isVariable = true := by
        intro symbol hsymbol
        obtain ⟨name, -, rfl⟩ := List.mem_map.mp hsymbol
        simp [Symbol.isVariable]
      rw [Stmt.ownSymbols, List.filter_eq_nil_iff.mpr hnone]
      rfl
  | _ => rfl

/-- The symbols of variables and constants are those of the declarations outside of expressions. -/
theorem Program.variable_names (p : Program) :
    (p.symbols.filter Symbol.isVariable).map Symbol.name =
      (p.visible.filter Declaration.isVariable).map Declaration.name := by
  rw [Program.symbols_eq, Program.visible, List.filter_flatMap, List.filter_flatMap, List.map_flatMap,
    List.map_flatMap]
  simp only [Stmt.variable_names]

/-- What stands behind the words of a text is what the declarations of its program are called. -/
theorem kindsDeclared_of_programOf {tokens : List Token} {p : Program} (h : Syntax.Ended tokens)
    (hp : Syntax.programOf tokens = .ok p) :
    kindsDeclared false (tokens.map Token.kind) =
      (p.declarations.filter Declaration.isVariable).map Declaration.nameKind := by
  have hall := h.finished hp
  have hdeclared := Syntax.declarations_of_programOf h hp
  obtain ⟨init, last, rfl, hlast, hinit⟩ := h
  obtain ⟨r, hread, hstep⟩ := Syntax.Reading.exists_concat hall
  have hrun := Syntax.Reading.kindsDeclared_takeAll rfl hinit hread [last.kind]
  rw [Syntax.Reading.recent_start] at hrun
  have hopens : r.recent.opensVariable = false := by
    cases hopens : r.recent.opensVariable with
    | false => rfl
    | true =>
        obtain ⟨name, hname⟩ := Syntax.Reading.name_of_step hopens hstep
        rw [hlast] at hname
        cases hname
  have hend : kindsDeclared r.recent.dot [last.kind] = [] := by
    rw [hlast]
    rfl
  rw [hopens, hend] at hrun
  rw [hdeclared, Syntax.Recent.declaredBy_concat _ _ (by rw [hlast]; rfl), List.map_append]
  simpa [Syntax.Recent.opensVariable] using hrun

/-- The words `let` and `const` of a text that can be read, where no dot stands before them, have names behind them:
those of the variables and constants that the program declares.  The symbols of variables and constants are those
of the declarations outside of expressions.  So the symbols are as many as the words, and have the names behind
them, exactly if no function in an expression declares a variable or a constant. -/
theorem variable_symbols {source : String} {file : Option String} {tokens : List Token} {p : Program}
    (htokens : Token.tokenize source file = .ok tokens) (hread : Syntax.read source file = .ok p) :
    kindsDeclared false (tokens.map Token.kind) =
        (p.declarations.filter Declaration.isVariable).map Declaration.nameKind ∧
      Merged p.visible p.hidden p.declarations ∧
      (p.symbols.filter Symbol.isVariable).map Symbol.name =
        (p.visible.filter Declaration.isVariable).map Declaration.name ∧
      ((p.symbols.filter Symbol.isVariable).length =
          (kindsDeclared false (tokens.map Token.kind)).length ↔
        ∀ d ∈ p.hidden, d.isVariable = false) ∧
      ((p.symbols.filter Symbol.isVariable).map (fun s => some (.identifier s.name)) =
          kindsDeclared false (tokens.map Token.kind) ↔
        ∀ d ∈ p.hidden, d.isVariable = false) := by
  obtain ⟨tokens', htokens', hp⟩ := Syntax.tokens_of_read hread
  obtain rfl := Except.ok.inj (htokens'.symm.trans htokens)
  have hkinds := kindsDeclared_of_programOf (Syntax.ended_tokenize htokens) hp
  have hmerged := p.merged.filter Declaration.isVariable
  have hlength : (p.symbols.filter Symbol.isVariable).length =
      (p.visible.filter Declaration.isVariable).length := by
    simpa using congrArg List.length p.variable_names
  have hnames : (p.symbols.filter Symbol.isVariable).map (fun s => some (Kind.identifier s.name)) =
      (p.visible.filter Declaration.isVariable).map Declaration.nameKind := by
    have hmapped := congrArg (List.map fun name => some (Kind.identifier name)) p.variable_names
    rw [List.map_map, List.map_map] at hmapped
    exact hmapped
  have hhidden : (∀ d ∈ p.hidden, d.isVariable = false) ↔
      p.hidden.filter Declaration.isVariable = [] := by
    simp [List.filter_eq_nil_iff]
  rw [hkinds, hlength, hnames, hhidden, List.length_map]
  exact ⟨rfl, p.merged, p.variable_names, hmerged.length_eq_iff, hmerged.map_eq_iff _⟩

/-- A constant in a function, and a member that is called as the word is spelled. -/
theorem variable_symbols_member :
    ∃ tokens p, Token.tokenize "fn g() \x7b const a = x.let; \x7d" none = .ok tokens ∧
      Syntax.read "fn g() \x7b const a = x.let; \x7d" none = .ok p ∧ p.hidden = [] ∧
      (p.symbols.filter Symbol.isVariable).map (fun s => some (.identifier s.name)) =
        kindsDeclared false (tokens.map Token.kind) := by
  have hsome : (Token.tokenize "fn g() \x7b const a = x.let; \x7d" none).toOption.isSome = true := by
    decide +kernel
  have hnone : (Syntax.read "fn g() \x7b const a = x.let; \x7d" none).toOption.map Program.hidden =
      some [] := by
    decide +kernel
  cases htokens : Token.tokenize "fn g() \x7b const a = x.let; \x7d" none with
  | error failure =>
      rw [htokens] at hsome
      cases hsome
  | ok tokens =>
      cases hread : Syntax.read "fn g() \x7b const a = x.let; \x7d" none with
      | error failure =>
          rw [hread] at hnone
          cases hnone
      | ok p =>
          have hhidden : p.hidden = [] := by
            rw [hread] at hnone
            exact Option.some.inj hnone
          obtain ⟨-, -, -, -, hnames⟩ := variable_symbols htokens hread
          exact ⟨tokens, p, rfl, rfl, hhidden, hnames.mpr (by simp [hhidden])⟩

/-- The variable of a function in an expression has no symbol. -/
theorem symbols_of_function_in_expression :
    ((Token.tokenize "let f = fn() \x7b let x; \x7d;" none).toOption.map fun tokens =>
        kindsDeclared false (tokens.map Token.kind)) =
      some [some (.identifier "f"), some (.identifier "x")] ∧
    ((Syntax.read "let f = fn() \x7b let x; \x7d;" none).toOption.map fun p =>
        (p.symbols.filter Symbol.isVariable).map Symbol.name) = some ["f"] := by
  constructor <;> decide +kernel

end ScriptLens
