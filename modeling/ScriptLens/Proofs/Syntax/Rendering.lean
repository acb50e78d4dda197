import ScriptLens.Syntax.Read

/-!
# Canonical renderings

A canonical rendering writes a program as tokens so that nothing is left to precedence or to look-ahead:
every operand stands in parentheses, every body in braces, every statement without a body ends with a
semicolon, and keys are written as strings.  The tokens are given by their kinds alone, since where they
stand says nothing about the program.

A rendering is read one kind at a time.  `Reads` says where that leads, whatever locations the tokens
have.
-/

namespace ScriptLens

/-! ### Programs without locations -/

mutual

/-- An expression without its locations. -/
@[simp] def Expr.unlocated : Expr → Expr
  | .number value _ => .number value none
  | .string value _ => .string value none
  | .identifier name _ => .identifier name none
  | .array elements _ => .array (unlocatedExprs elements) none
  | .object properties _ => .object (unlocatedProperties properties) none
  | .lambda parameters body _ => .lambda parameters (unlocatedStmts body) none
  | .call callee arguments _ => .call callee.unlocated (unlocatedExprs arguments) none
  | .member object name _ _ => .member object.unlocated name none none
  | .index object key _ => .index object.unlocated key.unlocated none
  | .binary op left right _ => .binary op left.unlocated right.unlocated none
  | .unary op operand _ => .unary op operand.unlocated none
  | .assign target value _ => .assign target.unlocated value.unlocated none

/-- Expressions without their locations. -/
@[simp] def unlocatedExprs : List Expr → List Expr
  | [] => []
  | e :: rest => e.unlocated :: unlocatedExprs rest

/-- An entry without its locations. -/
@[simp] def Property.unlocated : Property → Property
  | .mk key none _ => .mk key none none
  | .mk key (some value) _ => .mk key (some value.unlocated) none

/-- Entries without their locations. -/
@[simp] def unlocatedProperties : List Property → List Property
  | [] => []
  | p :: rest => p.unlocated :: unlocatedProperties rest

/-- A statement without its locations. -/
@[simp] def Stmt.unlocated : Stmt → Stmt
  | .declare constant name none doc _ => .declare constant name none doc none
  | .declare constant name (some value) doc _ =>
      .declare constant name (some value.unlocated) doc none
  | .function name parameters body doc _ => .function name parameters (unlocatedStmts body) doc none
  | .imports names source _ => .imports names source none
  | .conditional condition body none _ =>
      .conditional condition.unlocated (unlocatedStmts body) none none
  | .conditional condition body (some otherwise) _ =>
      .conditional condition.unlocated (unlocatedStmts body) (some (unlocatedStmts otherwise)) none
  | .loop condition body _ => .loop condition.unlocated (unlocatedStmts body) none
  | .result none _ => .result none none
  | .result (some value) _ => .result (some value.unlocated) none
  | .expression value _ => .expression value.unlocated none
  | .foreign body thenBranch elseBranch _ =>
      .foreign body.unlocated thenBranch.unlocated elseBranch.unlocated none

/-- A part of a foreign statement without its locations. -/
@[simp] def Slot.unlocated : Slot → Slot
  | .absent => .absent
  | .text value => .text value
  | .statements body => .statements (unlocatedStmts body)

/-- Statements without their locations. -/
@[simp] def unlocatedStmts : List Stmt → List Stmt
  | [] => []
  | s :: rest => s.unlocated :: unlocatedStmts rest

end

/-- A program without its locations. -/
def Program.unlocated (p : Program) : Program :=
  ⟨unlocatedStmts p.body, none⟩

/-- What can be assigned to does not depend on locations. -/
theorem Expr.isTarget_congr {e e' : Expr} (h : e'.unlocated = e.unlocated) :
    e'.isTarget = e.isTarget := by
  have hself : ∀ x : Expr, x.unlocated.isTarget = x.isTarget := by
    intro x
    cases x <;> simp [Expr.isTarget]
  rw [← hself e', h, hself e]

/-! ### Renderings -/

/-- Kinds between parentheses. -/
def parenthesized (kinds : List Kind) : List Kind :=
  .mark .openParen :: (kinds ++ [.mark .closeParen])

/-- Kinds between parentheses, or as they are. -/
def enclosed (whole : Bool) (kinds : List Kind) : List Kind :=
  if whole then parenthesized kinds else kinds

/-- Names with a comma between each two. -/
def nameKinds : List String → List Kind
  | [] => []
  | [name] => [.identifier name]
  | name :: below :: rest => .identifier name :: .mark .comma :: nameKinds (below :: rest)

/-- The parameters of a function. -/
def parameterKinds (names : List String) : List Kind :=
  .mark .openParen :: (nameKinds names ++ [.mark .closeParen])

/-- Documentation before a declaration. -/
def docKinds : Option String → List Kind
  | none => []
  | some text => [.doc text]

mutual

/-- The rendering of an expression: all expressions inside it stand in parentheses.  Whether an
expression that is part of a statement does too is said by `whole`. -/
@[simp] def Expr.kinds (whole : Bool) : Expr → List Kind
  | .number value _ => [.number value]
  | .string value _ => [.string value]
  | .identifier name _ => [.identifier name]
  | .array elements _ =>
      .mark .openBracket :: (kindsOfExprs whole elements ++ [.mark .closeBracket])
  | .object properties _ =>
      .mark .openBrace :: (kindsOfProperties whole properties ++ [.mark .closeBrace])
  | .lambda parameters body _ =>
      .keyword .fnWord :: (parameterKinds parameters ++
        .mark .openBrace :: (kindsOfStmts whole body ++ [.mark .closeBrace]))
  | .call callee arguments _ =>
      parenthesized (callee.kinds whole) ++
        .mark .openParen :: (kindsOfExprs whole arguments ++ [.mark .closeParen])
  | .member object name _ _ =>
      parenthesized (object.kinds whole) ++ [.mark .dot, .identifier name]
  | .index object key _ =>
      parenthesized (object.kinds whole) ++
        .mark .openBracket :: (parenthesized (key.kinds whole) ++ [.mark .closeBracket])
  | .binary op left right _ =>
      parenthesized (left.kinds whole) ++ .mark op.mark :: parenthesized (right.kinds whole)
  | .unary op operand _ => .mark op.mark :: parenthesized (operand.kinds whole)
  | .assign target value _ =>
      parenthesized (target.kinds whole) ++ .mark .assign :: parenthesized (value.kinds whole)

/-- Expressions in parentheses with a comma between each two. -/
@[simp] def kindsOfExprs (whole : Bool) : List Expr → List Kind
  | [] => []
  | [e] => parenthesized (e.kinds whole)
  | e :: below :: rest =>
      parenthesized (e.kinds whole) ++ .mark .comma :: kindsOfExprs whole (below :: rest)

/-- The rendering of an entry. -/
@[simp] def Property.kinds (whole : Bool) : Property → List Kind
  | .mk key none _ => [.string key]
  | .mk key (some value) _ =>
      .string key :: .mark .colon :: parenthesized (value.kinds whole)

/-- Entries with a comma between each two. -/
@[simp] def kindsOfProperties (whole : Bool) : List Property → List Kind
  | [] => []
  | [p] => p.kinds whole
  | p :: below :: rest => p.kinds whole ++ .mark .comma :: kindsOfProperties whole (below :: rest)

/-- The rendering of a statement.  A foreign statement has none. -/
@[simp] def Stmt.kinds (whole : Bool) : Stmt → List Kind
  | .declare constant name none doc _ =>
      docKinds doc ++ .keyword (if constant then .constWord else .letWord) :: .identifier name ::
        [.mark .semicolon]
  | .declare constant name (some value) doc _ =>
      docKinds doc ++ .keyword (if constant then .constWord else .letWord) :: .identifier name ::
        .mark .assign :: (enclosed whole (value.kinds whole) ++ [.mark .semicolon])
  | .function name parameters body doc _ =>
      docKinds doc ++ .keyword .fnWord :: .identifier name :: (parameterKinds parameters ++
        .mark .openBrace :: (kindsOfStmts whole body ++ [.mark .closeBrace]))
  | .imports names source _ =>
      .keyword .importWord :: .mark .openBrace :: (nameKinds names ++
        [.mark .closeBrace, .keyword .fromWord, .string source, .mark .semicolon])
  | .conditional condition body none _ =>
      .keyword .ifWord :: .mark .openParen :: (enclosed whole (condition.kinds whole) ++
        .mark .closeParen :: .mark .openBrace :: (kindsOfStmts whole body ++ [.mark .closeBrace]))
  | .conditional condition body (some otherwise) _ =>
      .keyword .ifWord :: .mark .openParen :: (enclosed whole (condition.kinds whole) ++
        .mark .closeParen :: .mark .openBrace :: (kindsOfStmts whole body ++
          .mark .closeBrace :: .keyword .elseWord :: .mark .openBrace ::
            (kindsOfStmts whole otherwise ++ [.mark .closeBrace])))
  | .loop condition body _ =>
      .keyword .whileWord :: .mark .openParen :: (enclosed whole (condition.kinds whole) ++
        .mark .closeParen :: .mark .openBrace :: (kindsOfStmts whole body ++ [.mark .closeBrace]))
  | .result none _ => [.keyword .returnWord, .mark .semicolon]
  | .result (some value) _ =>
      .keyword .returnWord :: (enclosed whole (value.kinds whole) ++ [.mark .semicolon])
  | .expression value _ => enclosed whole (value.kinds whole) ++ [.mark .semicolon]
  | .foreign _ _ _ _ => []

/-- Statements one after the other. -/
@[simp] def kindsOfStmts (whole : Bool) : List Stmt → List Kind
  | [] => []
  | s :: rest => s.kinds whole ++ kindsOfStmts whole rest

end

/-- The rendering of a program. -/
def Program.kinds (whole : Bool) (p : Program) : List Kind :=
  kindsOfStmts whole p.body ++ [.eof]

namespace Syntax

/-! ### Reading kinds -/

/-- Reading tokens of these kinds, wherever they stand, leads from one reading to another with the
property `goal`. -/
def Reads (goal : Reading → Prop) : Reading → List Kind → Prop
  | r, [] => goal r
  | r, kind :: kinds =>
      ∀ loc : Location, ∃ next, r.step ⟨kind, loc⟩ = .ok next ∧ Reads goal next kinds

variable {goal : Reading → Prop}

/-- Readings that take the next kind alike are alike from there on. -/
theorem Reads.of_step {r r' : Reading} {kind : Kind} {kinds : List Kind}
    (h : Reads goal r' (kind :: kinds))
    (heq : ∀ loc, r.step ⟨kind, loc⟩ = r'.step ⟨kind, loc⟩) : Reads goal r (kind :: kinds) := by
  intro loc
  rw [heq]
  exact h loc

/-- Tokens of these kinds are taken. -/
theorem Reads.takeAll {r : Reading} {tokens : List Token}
    (h : Reads goal r (tokens.map Token.kind)) : ∃ next, r.takeAll tokens = .ok next ∧ goal next := by
  induction tokens generalizing r with
  | nil => exact ⟨r, rfl, h⟩
  | cons t ts ih =>
      obtain ⟨next, hstep, hnext⟩ := h t.location
      obtain ⟨last, hall, hgoal⟩ := ih hnext
      refine ⟨last, ?_, hgoal⟩
      have htake : r.take t = .ok next := by rw [Reading.take, hstep]; rfl
      rw [Reading.takeAll, htake]
      exact hall

end Syntax

end ScriptLens
