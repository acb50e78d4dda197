import ScriptLens.Proofs.Syntax.Rendering
import ScriptLens.Proofs.Syntax.WellFormed

/-!
# Reading does not look at locations

Locations are copied from the tokens into the tree and never looked at.  So changing the locations of all tokens
in some way changes the locations of what is read in the same way, and nothing else.

Main statement: `Reading.step_relocate`.
-/

namespace ScriptLens

variable (f : Location → Location)

/-! ### Changing locations -/

mutual

/-- An expression with its locations changed. -/
@[simp] def Expr.relocate : Expr → Expr
  | .number value loc => .number value (loc.map f)
  | .string value loc => .string value (loc.map f)
  | .identifier name loc => .identifier name (loc.map f)
  | .array elements loc => .array (relocateExprs elements) (loc.map f)
  | .object properties loc => .object (relocateProperties properties) (loc.map f)
  | .lambda parameters body loc => .lambda parameters (relocateStmts body) (loc.map f)
  | .call callee arguments loc => .call callee.relocate (relocateExprs arguments) (loc.map f)
  | .member object name nameLoc loc => .member object.relocate name (nameLoc.map f) (loc.map f)
  | .index object key loc => .index object.relocate key.relocate (loc.map f)
  | .binary op left right loc => .binary op left.relocate right.relocate (loc.map f)
  | .unary op operand loc => .unary op operand.relocate (loc.map f)
  | .assign target value loc => .assign target.relocate value.relocate (loc.map f)

/-- Expressions with their locations changed. -/
@[simp] def relocateExprs : List Expr → List Expr
  | [] => []
  | e :: rest => e.relocate :: relocateExprs rest

/-- An entry with its locations changed. -/
@[simp] def Property.relocate : Property → Property
  | .mk key none loc => .mk key none (loc.map f)
  | .mk key (some value) loc => .mk key (some value.relocate) (loc.map f)

/-- Entries with their locations changed. -/
@[simp] def relocateProperties : List Property → List Property
  | [] => []
  | p :: rest => p.relocate :: relocateProperties rest

/-- A statement with its locations changed. -/
@[simp] def Stmt.relocate : Stmt → Stmt
  | .declare constant name none doc loc => .declare constant name none doc (loc.map f)
  | .declare constant name (some value) doc loc =>
      .declare constant name (some value.relocate) doc (loc.map f)
  | .function name parameters body doc loc =>
      .function name parameters (relocateStmts body) doc (loc.map f)
  | .imports names source loc => .imports names source (loc.map f)
  | .conditional condition body none loc =>
      .conditional condition.relocate (relocateStmts body) none (loc.map f)
  | .conditional condition body (some otherwise) loc =>
      .conditional condition.relocate (relocateStmts body) (some (relocateStmts otherwise)) (loc.map f)
  | .loop condition body loc => .loop condition.relocate (relocateStmts body) (loc.map f)
  | .result none loc => .result none (loc.map f)
  | .result (some value) loc => .result (some value.relocate) (loc.map f)
  | .expression value loc => .expression value.relocate (loc.map f)
  | .foreign body thenBranch elseBranch loc =>
      .foreign body.relocate thenBranch.relocate elseBranch.relocate (loc.map f)

/-- A part of a foreign statement with its locations changed. -/
@[simp] def Slot.relocate : Slot → Slot
  | .absent => .absent
  | .text value => .text value
  | .statements body => .statements (relocateStmts body)

/-- Statements with their locations changed. -/
@[simp] def relocateStmts : List Stmt → List Stmt
  | [] => []
  | s :: rest => s.relocate :: relocateStmts rest

end

/-- A token with its location changed. -/
def Token.relocate (t : Token) : Token :=
  ⟨t.kind, f t.location⟩

@[simp] theorem Token.kind_relocate (t : Token) : (t.relocate f).kind = t.kind := rfl

@[simp] theorem Token.location_relocate (t : Token) :
    (t.relocate f).location = f t.location := rfl

/-- A program with its locations changed. -/
def Program.relocate (p : Program) : Program :=
  ⟨relocateStmts f p.body, p.location.map f⟩

@[simp] theorem relocateExprs_eq_map (es : List Expr) :
    relocateExprs f es = es.map (Expr.relocate f) := by
  induction es with
  | nil => rfl
  | cons e es ih => rw [relocateExprs, ih]; rfl

@[simp] theorem relocateProperties_eq_map (ps : List Property) :
    relocateProperties f ps = ps.map (Property.relocate f) := by
  induction ps with
  | nil => rfl
  | cons p ps ih => rw [relocateProperties, ih]; rfl

@[simp] theorem relocateStmts_eq_map (ss : List Stmt) :
    relocateStmts f ss = ss.map (Stmt.relocate f) := by
  induction ss with
  | nil => rfl
  | cons s ss ih => rw [relocateStmts, ih]; rfl

@[simp] theorem Expr.location_relocate (e : Expr) : (e.relocate f).location = e.location.map f := by
  cases e <;> rfl

@[simp] theorem Expr.isTarget_relocate (e : Expr) : (e.relocate f).isTarget = e.isTarget := by
  cases e <;> rfl

mutual

/-- Without its locations an expression is what it was. -/
theorem Expr.unlocated_relocate : (e : Expr) → (e.relocate f).unlocated = e.unlocated
  | .number _ _ | .string _ _ | .identifier _ _ => rfl
  | .array elements _ => by simp [unlocatedExprs_relocate elements]
  | .object properties _ => by simp [unlocatedProperties_relocate properties]
  | .lambda _ body _ => by simp [unlocatedStmts_relocate body]
  | .call callee arguments _ => by
      simp [Expr.unlocated_relocate callee, unlocatedExprs_relocate arguments]
  | .member object _ _ _ => by simp [Expr.unlocated_relocate object]
  | .index object key _ => by simp [Expr.unlocated_relocate object, Expr.unlocated_relocate key]
  | .binary _ left right _ => by simp [Expr.unlocated_relocate left, Expr.unlocated_relocate right]
  | .unary _ operand _ => by simp [Expr.unlocated_relocate operand]
  | .assign target value _ => by simp [Expr.unlocated_relocate target, Expr.unlocated_relocate value]

theorem unlocatedExprs_relocate : (es : List Expr) →
    unlocatedExprs (es.map (Expr.relocate f)) = unlocatedExprs es
  | [] => rfl
  | e :: es => by simp [Expr.unlocated_relocate e, unlocatedExprs_relocate es]

theorem Property.unlocated_relocate : (p : Property) → (p.relocate f).unlocated = p.unlocated
  | .mk _ none _ => rfl
  | .mk _ (some value) _ => by simp [Expr.unlocated_relocate value]

theorem unlocatedProperties_relocate : (ps : List Property) →
    unlocatedProperties (ps.map (Property.relocate f)) = unlocatedProperties ps
  | [] => rfl
  | p :: ps => by simp [Property.unlocated_relocate p, unlocatedProperties_relocate ps]

theorem Stmt.unlocated_relocate : (s : Stmt) → (s.relocate f).unlocated = s.unlocated
  | .declare _ _ none _ _ | .imports _ _ _ | .result none _ => rfl
  | .declare _ _ (some value) _ _ => by simp [Expr.unlocated_relocate value]
  | .function _ _ body _ _ => by simp [unlocatedStmts_relocate body]
  | .conditional condition body none _ => by
      simp [Expr.unlocated_relocate condition, unlocatedStmts_relocate body]
  | .conditional condition body (some otherwise) _ => by
      simp [Expr.unlocated_relocate condition, unlocatedStmts_relocate body,
        unlocatedStmts_relocate otherwise]
  | .loop condition body _ => by
      simp [Expr.unlocated_relocate condition, unlocatedStmts_relocate body]
  | .result (some value) _ => by simp [Expr.unlocated_relocate value]
  | .expression value _ => by simp [Expr.unlocated_relocate value]
  | .foreign body thenBranch elseBranch _ => by
      simp [Slot.unlocated_relocate body, Slot.unlocated_relocate thenBranch,
        Slot.unlocated_relocate elseBranch]

theorem Slot.unlocated_relocate : (slot : Slot) → (slot.relocate f).unlocated = slot.unlocated
  | .absent | .text _ => rfl
  | .statements body => by simp [unlocatedStmts_relocate body]

theorem unlocatedStmts_relocate : (ss : List Stmt) →
    unlocatedStmts (ss.map (Stmt.relocate f)) = unlocatedStmts ss
  | [] => rfl
  | s :: ss => by simp [Stmt.unlocated_relocate s, unlocatedStmts_relocate ss]

end

theorem Program.unlocated_relocate (p : Program) : (p.relocate f).unlocated = p.unlocated := by
  simp [relocate, unlocated, unlocatedStmts_relocate]

namespace Syntax

/-! ### Unfinished programs -/

/-- A branch with its locations changed. -/
def Branch.relocate (b : Branch) : Branch :=
  ⟨b.condition.relocate f, b.body.map (Stmt.relocate f), f b.location⟩

mutual

/-- A scope with its locations changed. -/
@[simp] def Scope.relocate : Scope → Scope
  | .program done loc => .program (done.map (Stmt.relocate f)) (loc.map f)
  | .function name parameters doc loc done outer =>
      .function name parameters doc (f loc) (done.map (Stmt.relocate f)) outer.relocate
  | .lambda parameters loc done outer =>
      .lambda parameters (f loc) (done.map (Stmt.relocate f)) outer.relocate
  | .branch condition loc chain done outer =>
      .branch (condition.relocate f) (f loc) (chain.map (Branch.relocate f))
        (done.map (Stmt.relocate f)) outer.relocate
  | .otherwise last chain done outer =>
      .otherwise (last.relocate f) (chain.map (Branch.relocate f)) (done.map (Stmt.relocate f))
        outer.relocate
  | .loop condition loc done outer =>
      .loop (condition.relocate f) (f loc) (done.map (Stmt.relocate f)) outer.relocate

/-- A place for an expression with its locations changed. -/
@[simp] def Hole.relocate : Hole → Hole
  | .statement loc outer => .statement (f loc) outer.relocate
  | .initial constant name doc loc outer => .initial constant name doc (f loc) outer.relocate
  | .result loc outer => .result (f loc) outer.relocate
  | .branchCondition loc chain outer =>
      .branchCondition (f loc) (chain.map (Branch.relocate f)) outer.relocate
  | .loopCondition loc outer => .loopCondition (f loc) outer.relocate
  | .parenthesis outer => .parenthesis outer.relocate
  | .element loc done outer => .element (f loc) (done.map (Expr.relocate f)) outer.relocate
  | .property loc done name nameLoc outer =>
      .property (f loc) (done.map (Property.relocate f)) name (f nameLoc) outer.relocate
  | .argument callee done outer =>
      .argument (callee.relocate f) (done.map (Expr.relocate f)) outer.relocate
  | .key object outer => .key (object.relocate f) outer.relocate
  | .operand op loc outer => .operand op (f loc) outer.relocate
  | .right left op outer => .right (left.relocate f) op outer.relocate
  | .assigned target outer => .assigned (target.relocate f) outer.relocate

end

/-- A function with its locations changed. -/
def Callable.relocate : Callable → Callable
  | .named name doc loc outer => .named name doc (f loc) (outer.relocate f)
  | .anonymous loc outer => .anonymous (f loc) (outer.relocate f)

/-- The head of a statement with its locations changed. -/
def Guard.relocate : Guard → Guard
  | .branch chain => .branch (chain.map (Branch.relocate f))
  | .loop => .loop

/-- What was read so far with its locations changed. -/
def Reading.relocate : Reading → Reading
  | .statement doc scope => .statement doc (scope.relocate f)
  | .operand hole => .operand (hole.relocate f)
  | .operator left hole => .operator (left.relocate f) (hole.relocate f)
  | .argument callee done hole =>
      .argument (callee.relocate f) (done.map (Expr.relocate f)) (hole.relocate f)
  | .element loc done hole => .element (f loc) (done.map (Expr.relocate f)) (hole.relocate f)
  | .key loc done hole => .key (f loc) (done.map (Property.relocate f)) (hole.relocate f)
  | .value loc done name nameLoc hole =>
      .value (f loc) (done.map (Property.relocate f)) name (f nameLoc) (hole.relocate f)
  | .memberName object hole => .memberName (object.relocate f) (hole.relocate f)
  | .importHead loc scope => .importHead (f loc) (scope.relocate f)
  | .importName loc names scope => .importName (f loc) names (scope.relocate f)
  | .importNext loc names scope => .importNext (f loc) names (scope.relocate f)
  | .importFrom loc names scope => .importFrom (f loc) names (scope.relocate f)
  | .importSource loc names scope => .importSource (f loc) names (scope.relocate f)
  | .declaredName constant doc scope => .declaredName constant doc (scope.relocate f)
  | .initial constant name doc loc scope => .initial constant name doc (f loc) (scope.relocate f)
  | .functionHead doc loc scope => .functionHead doc (f loc) (scope.relocate f)
  | .parameters owner => .parameters (owner.relocate f)
  | .parameterName owner names => .parameterName (owner.relocate f) names
  | .parameterNext owner names => .parameterNext (owner.relocate f) names
  | .condition guard loc scope => .condition (guard.relocate f) (f loc) (scope.relocate f)
  | .block inner => .block (inner.relocate f)
  | .afterBranch last chain scope =>
      .afterBranch (last.relocate f) (chain.map (Branch.relocate f)) (scope.relocate f)
  | .elseHead last chain scope =>
      .elseHead (last.relocate f) (chain.map (Branch.relocate f)) (scope.relocate f)
  | .result loc scope => .result (f loc) (scope.relocate f)
  | .complete program => .complete (program.relocate f)

/-! ### Finished parts -/

@[simp] theorem Scope.relocate_push (s : Stmt) (scope : Scope) :
    (scope.push s).relocate f = (scope.relocate f).push (s.relocate f) := by
  cases scope <;> simp [push]

@[simp] theorem relocate_nest (chain : List Branch) (s : Stmt) :
    (nest chain s).relocate f = nest (chain.map (Branch.relocate f)) (s.relocate f) := by
  induction chain generalizing s with
  | nil => rfl
  | cons b chain ih =>
      rw [nest, List.foldl_cons, ← nest, ih]
      simp [nest, Branch.relocate]

@[simp] theorem Scope.relocate_pushChain (scope : Scope) (last : Branch)
    (otherwise : Option (List Stmt)) (chain : List Branch) :
    (scope.pushChain last otherwise chain).relocate f =
      (scope.relocate f).pushChain (last.relocate f) (otherwise.map (List.map (Stmt.relocate f)))
        (chain.map (Branch.relocate f)) := by
  cases otherwise <;> simp [pushChain, Branch.relocate]

@[simp] theorem relocate_afterOperand (e : Expr) (hole : Hole) :
    (afterOperand e hole).relocate f = afterOperand (e.relocate f) (hole.relocate f) := by
  fun_induction afterOperand e hole with
  | case1 e op loc outer ih => rw [ih]; rfl
  | case2 e hole hother => cases hole <;> first | rfl | exact absurd rfl (hother _ _ _)

/-- Which operators take their right operand does not depend on the locations. -/
@[simp] theorem absorb_relocate (precedence : Nat) (e : Expr) (hole : Hole) :
    absorb precedence (e.relocate f) (hole.relocate f) =
      ((absorb precedence e hole).1.relocate f, (absorb precedence e hole).2.relocate f) := by
  fun_induction absorb precedence e hole with
  | case1 e left op outer hle ih =>
      rw [← ih]
      simp [absorb, hle]
  | case2 e left op outer hgt => simp [absorb, hgt]
  | case3 e hole hother => cases hole <;> first | rfl | exact absurd rfl (hother _ _ _)

/-! ### One token -/

theorem Scope.close_relocate (scope : Scope) :
    (scope.relocate f).close = scope.close.map (Reading.relocate f) := by
  cases scope with
  | lambda parameters loc done outer =>
      simp only [relocate, close, Except.map, relocate_afterOperand]
      simp
  | _ => simp [close, Except.map, Reading.relocate, Branch.relocate]

theorem Scope.finish_relocate (scope : Scope) :
    (scope.relocate f).finish = scope.finish.map (Reading.relocate f) := by
  cases scope <;> simp [finish, Except.map, Reading.relocate, Program.relocate]

theorem Hole.begin_relocate (hole : Hole) (t : Token) :
    (hole.relocate f).begin (t.relocate f) = (hole.begin t).map (Reading.relocate f) := by
  simp only [Hole.begin, Token.kind_relocate, Token.location_relocate]
  split <;> simp only [Except.map, relocate_afterOperand] <;> rfl

theorem Scope.begin_relocate (scope : Scope) (doc : Option String) (t : Token) :
    (scope.relocate f).begin doc (t.relocate f) =
      (scope.begin doc t).map (Reading.relocate f) := by
  have hstatement := Hole.begin_relocate f (.statement t.location scope) t
  rw [Hole.relocate] at hstatement
  simp only [Scope.begin, Token.kind_relocate, Token.location_relocate]
  split <;> first
    | exact hstatement
    | rfl
    | simp only [close_relocate, finish_relocate]
    | (split <;> rfl)

theorem Callable.scope_relocate (owner : Callable) (parameters : List String) :
    (owner.scope parameters).relocate f = (owner.relocate f).scope parameters := by
  cases owner <;> simp [scope, relocate]

theorem Callable.begin_relocate (owner : Callable) (t : Token) :
    (owner.relocate f).begin (t.relocate f) = (owner.begin t).map (Reading.relocate f) := by
  simp only [Callable.begin, Token.kind_relocate, apply_ite (Except.map _)]
  rfl

theorem Scope.enter_relocate (inner : Scope) (t : Token) :
    (inner.relocate f).enter (t.relocate f) = (inner.enter t).map (Reading.relocate f) := by
  simp only [Scope.enter, Token.kind_relocate, apply_ite (Except.map _)]
  rfl

theorem afterEntry_relocate (loc : Location) (done : List Property) (hole : Hole) (t : Token) :
    afterEntry (f loc) (done.map (Property.relocate f)) (hole.relocate f) (t.relocate f) =
      (afterEntry loc done hole t).map (Reading.relocate f) := by
  simp only [afterEntry, Token.kind_relocate]
  split <;> simp only [Except.map, relocate_afterOperand] <;> simp [Reading.relocate]

theorem Hole.fill_relocate (e : Expr) (t : Token) : (hole : Hole) →
    (hole.relocate f).fill (e.relocate f) (t.relocate f) =
      (hole.fill e t).map (Reading.relocate f)
  | .statement loc outer => by
      have h := Scope.begin_relocate f (outer.push (.expression e loc)) none t
      simpa [Hole.fill] using h
  | .initial constant name doc loc outer => by
      have h := Scope.begin_relocate f (outer.push (.declare constant name (some e) doc loc)) none t
      simpa [Hole.fill] using h
  | .result loc outer => by
      have h := Scope.begin_relocate f (outer.push (.result (some e) loc)) none t
      simpa [Hole.fill] using h
  | .branchCondition loc chain outer => by
      simp only [Hole.relocate, Hole.fill, Token.kind_relocate, apply_ite (Except.map _)]
      rfl
  | .loopCondition loc outer => by
      simp only [Hole.relocate, Hole.fill, Token.kind_relocate, apply_ite (Except.map _)]
      rfl
  | .parenthesis outer => by
      simp only [Hole.relocate, Hole.fill, Token.kind_relocate, apply_ite (Except.map _)]
      simp only [Except.map, relocate_afterOperand]
      rfl
  | .element loc done outer => by
      simp only [Hole.relocate, Hole.fill, Token.kind_relocate]
      split <;> simp only [Except.map, relocate_afterOperand] <;> simp [Reading.relocate]
  | .property loc done name nameLoc outer => by
      have h := afterEntry_relocate f loc (done ++ [.mk name (some e) nameLoc]) outer t
      simpa [Hole.fill] using h
  | .argument callee done outer => by
      simp only [Hole.relocate, Hole.fill, Token.kind_relocate]
      split <;> simp [Except.map, Reading.relocate]
  | .key object outer => by
      simp only [Hole.relocate, Hole.fill, Token.kind_relocate, apply_ite (Except.map _)]
      simp [Except.map, Reading.relocate]
  | .operand op loc outer => Hole.fill_relocate (.unary op e loc) t outer
  | .right left op outer => by
      have h := Hole.fill_relocate (.binary op left e left.location) t outer
      simpa [Hole.fill] using h
  | .assigned target outer => by
      have h := Hole.fill_relocate (.assign target e target.location) t outer
      simpa [Hole.fill] using h

theorem Hole.extend_relocate (hole : Hole) (e : Expr) (t : Token) :
    (hole.relocate f).extend (e.relocate f) (t.relocate f) =
      (hole.extend e t).map (Reading.relocate f) := by
  simp only [Hole.extend, Token.kind_relocate, absorb_relocate, Expr.isTarget_relocate,
    fill_relocate]
  split <;> try rfl
  · split <;> rfl
  · split <;> rfl

/-- One token with its location changed takes what was read to what is read, with the locations
changed. -/
theorem Reading.step_relocate (r : Reading) (t : Token) :
    (r.relocate f).step (t.relocate f) = (r.step t).map (Reading.relocate f) := by
  cases r with
  | statement doc scope => exact Scope.begin_relocate f scope doc t
  | operand hole => exact Hole.begin_relocate f hole t
  | operator left hole => exact Hole.extend_relocate f hole left t
  | argument callee done hole =>
      have h := Hole.begin_relocate f (.argument callee done hole) t
      rw [Hole.relocate] at h
      simp only [relocate, step, Token.kind_relocate, h, apply_ite (Except.map _)]
      simp [Except.map, relocate]
  | element loc done hole =>
      have h := Hole.begin_relocate f (.element loc done hole) t
      rw [Hole.relocate] at h
      simp only [relocate, step, Token.kind_relocate, h, apply_ite (Except.map _)]
      simp only [Except.map, relocate_afterOperand]
      simp
  | key loc done hole =>
      simp only [relocate, step, Token.kind_relocate]
      split <;> simp only [Except.map, relocate_afterOperand] <;> simp [relocate]
  | value loc done name nameLoc hole =>
      have h := afterEntry_relocate f loc (done ++ [.mk name none nameLoc]) hole t
      rw [List.map_append, List.map_singleton, Property.relocate] at h
      simp only [relocate, step, Token.kind_relocate, apply_ite (Except.map _), ← h]
      rfl
  | initial constant name doc loc scope =>
      have h := Scope.begin_relocate f (scope.push (.declare constant name none doc loc)) none t
      rw [Scope.relocate_push] at h
      simp only [relocate, step, Token.kind_relocate, apply_ite (Except.map _), ← h]
      rfl
  | functionHead doc loc scope =>
      have h := Callable.begin_relocate f (.anonymous loc (.statement loc scope)) t
      simp only [relocate, step, Token.kind_relocate]
      split <;> first | rfl | exact h
  | parameters owner => exact Callable.begin_relocate f owner t
  | parameterName owner names | parameterNext owner names =>
      simp only [relocate, step, Token.kind_relocate]
      split <;> simp [Except.map, relocate, Callable.scope_relocate]
  | condition guard loc scope =>
      cases guard <;>
        simp only [relocate, Guard.relocate, step, Token.kind_relocate, apply_ite (Except.map _)] <;>
        rfl
  | block inner => exact Scope.enter_relocate f inner t
  | afterBranch last chain scope =>
      have h := Scope.begin_relocate f (scope.pushChain last none chain) none t
      rw [Scope.relocate_pushChain] at h
      simp only [relocate, step, Token.kind_relocate, apply_ite (Except.map _), ← h]
      rfl
  | elseHead last chain scope =>
      have h := Scope.enter_relocate f (.otherwise last chain [] scope) t
      simp only [relocate, step, Token.kind_relocate, apply_ite (Except.map _), ← h]
      rfl
  | result loc scope =>
      have hnone := Scope.begin_relocate f (scope.push (.result none loc)) none t
      have hvalue := Hole.begin_relocate f (.result loc scope) t
      rw [Scope.relocate_push] at hnone
      simp only [relocate, step, Token.kind_relocate]
      split <;> first | exact hnone | exact hvalue
  | importFrom loc names scope =>
      simp only [relocate, step, Token.kind_relocate, apply_ite (Except.map _)]
      rfl
  | complete program => rfl
  | _ =>
      simp only [relocate, step, Token.kind_relocate]
      split <;> simp [Except.map, relocate]

/-- Whole lists of tokens, too. -/
theorem Reading.takeAll_relocate (r : Reading) (tokens : List Token) :
    ((r.relocate f).takeAll (tokens.map (Token.relocate f))).toOption =
      (r.takeAll tokens).toOption.map (Reading.relocate f) := by
  induction tokens generalizing r with
  | nil => rfl
  | cons t ts ih =>
      rw [List.map_cons, takeAll, takeAll, take, take, step_relocate]
      cases r.step t with
      | error e => rfl
      | ok s => exact ih s

end Syntax

end ScriptLens
