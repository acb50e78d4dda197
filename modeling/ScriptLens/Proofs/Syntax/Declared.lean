import ScriptLens.Proofs.Syntax.CorrectPrefix
import ScriptLens.Proofs.Syntax.Recent

/-!
# Declarations and the tokens that write them

A variable, a constant or a function is declared by a word and the name right behind it, and documentation right
before the word belongs to it.  A program has exactly the declarations that its tokens write in this way, with
nothing lost in expressions, in the order of the text.

Main statements: `Reading.declared_step` and `declarations_of_programOf`.
-/

namespace ScriptLens

/-- What the declaration of a variable, a constant or a function says before the value or the body. -/
structure Declaration where
  word : Keyword
  name : String
  doc : Option String
  location : Option Location
deriving DecidableEq

/-- The text of a name. -/
def Kind.name? : Kind → Option String
  | .identifier name => some name
  | _ => none

/-! ### The declarations of a tree -/

mutual

/-- The declarations in an expression.  They stand in functions without a name. -/
@[simp] def Expr.declarations : Expr → List Declaration
  | .number _ _ => []
  | .string _ _ => []
  | .identifier _ _ => []
  | .array elements _ => exprDeclarations elements
  | .object properties _ => propertyDeclarations properties
  | .lambda _ body _ => stmtDeclarations body
  | .call callee arguments _ => callee.declarations ++ exprDeclarations arguments
  | .member object _ _ _ => object.declarations
  | .index object key _ => object.declarations ++ key.declarations
  | .binary _ left right _ => left.declarations ++ right.declarations
  | .unary _ operand _ => operand.declarations
  | .assign target value _ => target.declarations ++ value.declarations

/-- The declarations in expressions. -/
@[simp] def exprDeclarations : List Expr → List Declaration
  | [] => []
  | e :: rest => e.declarations ++ exprDeclarations rest

/-- The declarations in an entry of an object. -/
@[simp] def Property.declarations : Property → List Declaration
  | .mk _ none _ => []
  | .mk _ (some value) _ => value.declarations

/-- The declarations in entries of an object. -/
@[simp] def propertyDeclarations : List Property → List Declaration
  | [] => []
  | p :: rest => p.declarations ++ propertyDeclarations rest

/-- The declarations in a statement, with its own. -/
@[simp] def Stmt.declarations : Stmt → List Declaration
  | .declare constant name none doc loc => [⟨.ofDeclaration constant, name, doc, loc⟩]
  | .declare constant name (some value) doc loc =>
      ⟨.ofDeclaration constant, name, doc, loc⟩ :: value.declarations
  | .function name _ body doc loc => ⟨.fnWord, name, doc, loc⟩ :: stmtDeclarations body
  | .imports _ _ _ => []
  | .conditional condition body none _ => condition.declarations ++ stmtDeclarations body
  | .conditional condition body (some otherwise) _ =>
      condition.declarations ++ stmtDeclarations body ++ stmtDeclarations otherwise
  | .loop condition body _ => condition.declarations ++ stmtDeclarations body
  | .result none _ => []
  | .result (some value) _ => value.declarations
  | .expression value _ => value.declarations
  | .foreign body thenBranch elseBranch _ =>
      body.declarations ++ thenBranch.declarations ++ elseBranch.declarations

/-- The declarations in a part of a foreign statement. -/
@[simp] def Slot.declarations : Slot → List Declaration
  | .absent => []
  | .text _ => []
  | .statements body => stmtDeclarations body

/-- The declarations in statements. -/
@[simp] def stmtDeclarations : List Stmt → List Declaration
  | [] => []
  | s :: rest => s.declarations ++ stmtDeclarations rest

end

@[simp] theorem exprDeclarations_append (a b : List Expr) :
    exprDeclarations (a ++ b) = exprDeclarations a ++ exprDeclarations b := by
  induction a with
  | nil => rfl
  | cons e rest ih => simp [ih]

@[simp] theorem propertyDeclarations_append (a b : List Property) :
    propertyDeclarations (a ++ b) = propertyDeclarations a ++ propertyDeclarations b := by
  induction a with
  | nil => rfl
  | cons p rest ih => simp [ih]

@[simp] theorem stmtDeclarations_append (a b : List Stmt) :
    stmtDeclarations (a ++ b) = stmtDeclarations a ++ stmtDeclarations b := by
  induction a with
  | nil => rfl
  | cons s rest ih => simp [ih]

/-- All declarations of a program, in the order of the text. -/
def Program.declarations (p : Program) : List Declaration :=
  stmtDeclarations p.body

namespace Syntax

/-! ### The declarations of an unfinished program -/

/-- The declarations in a branch. -/
@[simp] def Branch.declared (b : Branch) : List Declaration :=
  b.condition.declarations ++ stmtDeclarations b.body

/-- The declarations in the earlier branches of a chain, the latest of which comes first in the list. -/
@[simp] def chainDeclared : List Branch → List Declaration
  | [] => []
  | branch :: earlier => chainDeclared earlier ++ branch.declared

mutual

/-- The declarations around a list of statements and in it. -/
@[simp] def Scope.declared : Scope → List Declaration
  | .program done _ => stmtDeclarations done
  | .function name _ doc loc done outer =>
      outer.declared ++ ⟨.fnWord, name, doc, some loc⟩ :: stmtDeclarations done
  | .lambda _ _ done outer => outer.declared ++ stmtDeclarations done
  | .branch condition _ chain done outer =>
      outer.declared ++ chainDeclared chain ++ condition.declarations ++ stmtDeclarations done
  | .otherwise last chain done outer =>
      outer.declared ++ chainDeclared chain ++ last.declared ++ stmtDeclarations done
  | .loop condition _ done outer =>
      outer.declared ++ condition.declarations ++ stmtDeclarations done

/-- The declarations before a place for an expression. -/
@[simp] def Hole.declared : Hole → List Declaration
  | .statement _ outer => outer.declared
  | .initial constant name doc loc outer =>
      outer.declared ++ [⟨.ofDeclaration constant, name, doc, some loc⟩]
  | .result _ outer => outer.declared
  | .branchCondition _ chain outer => outer.declared ++ chainDeclared chain
  | .loopCondition _ outer => outer.declared
  | .parenthesis outer => outer.declared
  | .element _ done outer => outer.declared ++ exprDeclarations done
  | .property _ done _ _ outer => outer.declared ++ propertyDeclarations done
  | .argument callee done outer => outer.declared ++ callee.declarations ++ exprDeclarations done
  | .key object outer => outer.declared ++ object.declarations
  | .operand _ _ outer => outer.declared
  | .right left _ outer => outer.declared ++ left.declarations
  | .assigned target outer => outer.declared ++ target.declarations

end

/-- The declarations before the parameters of a function, with its own. -/
def Callable.declared : Callable → List Declaration
  | .named name doc loc outer => outer.declared ++ [⟨.fnWord, name, doc, some loc⟩]
  | .anonymous _ outer => outer.declared

/-- The declarations in the earlier branches of a condition. -/
def Guard.declared : Guard → List Declaration
  | .branch chain => chainDeclared chain
  | .loop => []

/-- The declarations that were read so far. -/
def Reading.declared : Reading → List Declaration
  | .statement _ scope => scope.declared
  | .operand hole => hole.declared
  | .operator left hole => hole.declared ++ left.declarations
  | .argument callee done hole => hole.declared ++ callee.declarations ++ exprDeclarations done
  | .element _ done hole => hole.declared ++ exprDeclarations done
  | .key _ done hole => hole.declared ++ propertyDeclarations done
  | .value _ done _ _ hole => hole.declared ++ propertyDeclarations done
  | .memberName object hole => hole.declared ++ object.declarations
  | .importHead _ scope => scope.declared
  | .importName _ _ scope => scope.declared
  | .importNext _ _ scope => scope.declared
  | .importFrom _ _ scope => scope.declared
  | .importSource _ _ scope => scope.declared
  | .declaredName _ _ scope => scope.declared
  | .initial constant name doc loc scope =>
      scope.declared ++ [⟨.ofDeclaration constant, name, doc, some loc⟩]
  | .functionHead _ _ scope => scope.declared
  | .parameters owner => owner.declared
  | .parameterName owner _ => owner.declared
  | .parameterNext owner _ => owner.declared
  | .condition guard _ scope => scope.declared ++ guard.declared
  | .block inner => inner.declared
  | .afterBranch last chain scope => scope.declared ++ chainDeclared chain ++ last.declared
  | .elseHead last chain scope => scope.declared ++ chainDeclared chain ++ last.declared
  | .result _ scope => scope.declared
  | .complete program => program.declarations

/-! ### Finished parts -/

@[simp] theorem Scope.declared_push (scope : Scope) (s : Stmt) :
    (scope.push s).declared = scope.declared ++ s.declarations := by
  cases scope <;> simp [push]

@[simp] theorem declarations_nest (chain : List Branch) (innermost : Stmt) :
    (nest chain innermost).declarations = chainDeclared chain ++ innermost.declarations := by
  induction chain generalizing innermost with
  | nil => rfl
  | cons branch earlier ih =>
      have hnest : nest (branch :: earlier) innermost = nest earlier
          (.conditional branch.condition branch.body (some [innermost]) branch.location) := rfl
      rw [hnest, ih]
      simp

@[simp] theorem Scope.declared_pushChain (scope : Scope) (last : Branch)
    (otherwise : Option (List Stmt)) (chain : List Branch) :
    (scope.pushChain last otherwise chain).declared =
      scope.declared ++ chainDeclared chain ++ last.declared ++
        stmtDeclarations (otherwise.getD []) := by
  cases otherwise <;> simp [pushChain]

@[simp] theorem declared_afterOperand (e : Expr) (hole : Hole) :
    (afterOperand e hole).declared = hole.declared ++ e.declarations := by
  fun_induction afterOperand e hole with
  | case1 e op loc outer ih => simpa using ih
  | case2 e hole h => rfl

theorem declared_absorb (precedence : Nat) (e : Expr) (hole : Hole) :
    (absorb precedence e hole).2.declared ++ (absorb precedence e hole).1.declarations =
      hole.declared ++ e.declarations := by
  fun_induction absorb precedence e hole with
  | case1 e left op outer h ih => simpa using ih
  | case2 e left op outer h => rfl
  | case3 e hole h => rfl

@[simp] theorem Callable.declared_scope (owner : Callable) (names : List String) :
    (owner.scope names).declared = owner.declared := by
  cases owner <;> simp [Callable.scope, declared]

/-! ### One token -/

variable {t : Token} {r next : Reading}

theorem Scope.declared_close {scope : Scope} (h : scope.close = .ok next) :
    next.declared = scope.declared := by
  cases scope <;> cases h
  · simp [Reading.declared]
  · simp
  · simp [Reading.declared]
  · simp [Reading.declared]
  · simp [Reading.declared]

theorem Scope.declared_finish {scope : Scope} (h : scope.finish = .ok next) :
    next.declared = scope.declared := by
  cases scope <;> cases h
  simp [Reading.declared, Program.declarations]

theorem Hole.declared_begin {hole : Hole} (h : hole.begin t = .ok next) :
    next.declared = hole.declared := by
  unfold Hole.begin at h
  split at h <;> cases h
  · simp
  · simp
  · simp
  all_goals simp [Reading.declared, Callable.declared]

theorem Scope.declared_begin {scope : Scope} {doc : Option String}
    (h : scope.begin doc t = .ok next) : next.declared = scope.declared := by
  unfold Scope.begin at h
  split at h
  · exact Scope.declared_finish h
  · exact Scope.declared_close h
  · split at h <;> cases h
    rfl
  · cases h
    rfl
  · cases h
    rfl
  · cases h
    rfl
  · cases h
    rfl
  · cases h
    rfl
  · cases h
    simp [Reading.declared, Guard.declared]
  · cases h
    simp [Reading.declared, Guard.declared]
  · cases h
    rfl
  · simpa using Hole.declared_begin h

theorem Callable.declared_begin {owner : Callable} (h : owner.begin t = .ok next) :
    next.declared = owner.declared ∧ t.kind.name? = none := by
  unfold Callable.begin at h
  split at h <;> cases h
  rename_i hkind
  exact ⟨rfl, by rw [hkind]; rfl⟩

theorem Scope.declared_enter {scope : Scope} (h : scope.enter t = .ok next) :
    next.declared = scope.declared := by
  unfold Scope.enter at h
  split at h <;> cases h
  rfl

theorem declared_afterEntry {loc : Location} {done : List Property} {hole : Hole}
    (h : afterEntry loc done hole t = .ok next) :
    next.declared = hole.declared ++ propertyDeclarations done := by
  unfold afterEntry at h
  split at h <;> cases h
  · rfl
  · simp

theorem Hole.declared_fill {e : Expr} {hole : Hole} (h : hole.fill e t = .ok next) :
    next.declared = hole.declared ++ e.declarations := by
  fun_induction Hole.fill e t hole with
  | case1 | case2 | case3 => simpa using Scope.declared_begin h
  | case4 | case6 | case10 | case14 | case15 | case17 =>
      cases h
      simp [Reading.declared]
  | case8 | case11 =>
      cases h
      simp
  | case13 => simpa using declared_afterEntry h
  | case19 e op loc outer ih => simpa using ih h
  | case20 e left op outer ih => simpa using ih h
  | case21 e target outer ih => simpa using ih h
  | _ => cases h

theorem Hole.declared_extend {left : Expr} {hole : Hole} (h : hole.extend left t = .ok next) :
    next.declared = hole.declared ++ left.declarations := by
  unfold Hole.extend at h
  split at h
  · cases h
    simp [Reading.declared]
  · cases h
    rfl
  · cases h
    rfl
  · dsimp only at h
    split at h <;> cases h
    exact declared_absorb _ _ _
  · split at h
    · cases h
      exact declared_absorb _ _ _
    · exact Hole.declared_fill h
  · exact Hole.declared_fill h

/-- The declaration that a token completes: its name, behind the word that opens it. -/
def Recent.declared? (recent : Recent) (t : Token) : Option Declaration :=
  recent.opening.bind fun (word, doc) =>
    t.kind.name?.map fun name => ⟨word, name, doc, some t.location⟩

@[simp] theorem Recent.declared?_of_opening {recent : Recent} (h : recent.opening = none) :
    recent.declared? t = none := by
  simp [declared?, h]

@[simp] theorem Recent.declared?_of_name {recent : Recent} (h : t.kind.name? = none) :
    recent.declared? t = none := by
  simp [declared?, h]

/-- One token adds the declaration that it completes. -/
theorem Reading.declared_step (h : r.step t = .ok next) :
    next.declared = r.declared ++ (r.recent.declared? t).toList := by
  have hkeep : ∀ {ds : List Declaration}, r.recent.opening = none → next.declared = ds →
      next.declared = ds ++ (r.recent.declared? t).toList := by
    intro ds hopening hds
    simp [hopening, hds]
  unfold Reading.step at h
  split at h
  · exact hkeep rfl (Scope.declared_begin h)
  · exact hkeep rfl (Hole.declared_begin h)
  · exact hkeep rfl (Hole.declared_extend h)
  · split at h
    · cases h
      exact hkeep rfl (by simp [declared])
    · exact hkeep rfl (Hole.declared_begin h)
  · split at h
    · cases h
      exact hkeep rfl (declared_afterOperand _ _)
    · exact hkeep rfl (Hole.declared_begin h)
  · split at h <;> cases h
    · exact hkeep rfl (declared_afterOperand _ _)
    · exact hkeep rfl rfl
    · exact hkeep rfl rfl
  · split at h
    · cases h
      exact hkeep rfl rfl
    · exact hkeep rfl (by simpa [declared] using declared_afterEntry h)
  · split at h <;> cases h <;> exact hkeep rfl rfl
  · split at h <;> cases h <;> exact hkeep rfl rfl
  · split at h <;> cases h <;> exact hkeep rfl rfl
  · split at h <;> cases h <;> exact hkeep rfl rfl
  · split at h <;> cases h
    exact hkeep rfl rfl
  · split at h <;> cases h
    exact hkeep rfl (by simp [declared])
  · -- the name of a variable completes its declaration
    split at h <;> cases h
    rename_i name hkind
    simp [declared, recent, Recent.declared?, hkind, Kind.name?]
  · split at h
    · cases h
      exact hkeep rfl rfl
    · split at h
      · cases h
      · exact hkeep rfl (by simpa [declared] using Scope.declared_begin h)
  · split at h
    · -- and so does the name of a function
      rename_i name hkind
      cases h
      simp [declared, Callable.declared, recent, Recent.declared?, hkind, Kind.name?]
    · obtain ⟨hdeclared, hname⟩ := Callable.declared_begin h
      rw [hdeclared, Recent.declared?_of_name hname]
      simp [declared, Callable.declared]
  · obtain ⟨hdeclared, hname⟩ := Callable.declared_begin h
    rw [hdeclared, Recent.declared?_of_name hname]
    simp [declared]
  · split at h <;> cases h
    · exact hkeep rfl (Callable.declared_scope _ _)
    · exact hkeep rfl rfl
  · split at h <;> cases h
    · exact hkeep rfl rfl
    · exact hkeep rfl (Callable.declared_scope _ _)
  · split at h <;> cases h
    exact hkeep rfl rfl
  · split at h <;> cases h
    exact hkeep rfl (by simp [declared, Guard.declared])
  · exact hkeep rfl (Scope.declared_enter h)
  · split at h
    · cases h
      exact hkeep rfl rfl
    · exact hkeep rfl (by simpa [declared] using Scope.declared_begin h)
  · split at h
    · cases h
      exact hkeep rfl (by simp [declared, Guard.declared])
    · exact hkeep rfl (by simpa [declared] using Scope.declared_enter h)
  · split at h
    · exact hkeep rfl (by simpa [declared] using Scope.declared_begin h)
    · exact hkeep rfl (by simpa [declared] using Scope.declared_begin h)
    · exact hkeep rfl (by simpa [declared] using Scope.declared_begin h)
    · exact hkeep rfl (Hole.declared_begin h)
  · cases h
    exact hkeep rfl rfl

/-! ### All tokens -/

/-- The declarations that tokens complete. -/
def Recent.declaredBy (recent : Recent) : List Token → List Declaration
  | [] => []
  | t :: ts => (recent.declared? t).toList ++ (recent.next t.kind).declaredBy ts

/-- A token that is no name completes no declaration. -/
theorem Recent.declaredBy_concat (recent : Recent) (init : List Token) {last : Token}
    (h : last.kind.name? = none) : recent.declaredBy (init ++ [last]) = recent.declaredBy init := by
  induction init generalizing recent with
  | nil => simp [declaredBy, h]
  | cons t ts ih => rw [List.cons_append, declaredBy, declaredBy, ih]

/-- A declaration that tokens complete is a name right behind the word that opens it, and its documentation is what
is remembered before the word. -/
theorem Recent.exists_of_mem_declaredBy {recent : Recent} {tokens : List Token} {d : Declaration}
    (h : d ∈ recent.declaredBy tokens) :
    (∃ t rest, tokens = t :: rest ∧ recent.opening = some (d.word, d.doc) ∧
      t.kind = .identifier d.name ∧ d.location = some t.location) ∨
    ∃ before w t rest, tokens = before ++ w :: t :: rest ∧ w.kind = .keyword d.word ∧
      t.kind = .identifier d.name ∧ d.location = some t.location ∧
      d.doc = (recent.after (before.map Token.kind)).doc := by
  induction tokens generalizing recent with
  | nil => cases h
  | cons t ts ih =>
      rcases List.mem_append.mp h with hhere | hbehind
      · obtain ⟨opening, hopening, hd⟩ := Option.bind_eq_some_iff.mp (Option.mem_toList.mp hhere)
        obtain ⟨name, hname, rfl⟩ := Option.map_eq_some_iff.mp hd
        refine Or.inl ⟨t, ts, rfl, hopening, ?_, rfl⟩
        cases hkind : t.kind <;> rw [hkind] at hname <;> cases hname
        rfl
      · right
        rcases ih hbehind with
          ⟨u, rest, rfl, hopening, hkind, hloc⟩ | ⟨before, w, u, rest, rfl, hw, hkind, hloc, hdoc⟩
        · replace hopening : t.kind.opening? recent.dot recent.doc = some (d.word, d.doc) := hopening
          cases hword : t.kind with
          | keyword word =>
              rw [hword, Kind.opening?] at hopening
              split at hopening
              · obtain ⟨rfl, hdoc⟩ := Prod.mk.inj (Option.some.inj hopening)
                exact ⟨[], t, u, rest, rfl, hword, hkind, hloc, hdoc.symm⟩
              · cases hopening
          | _ =>
              rw [hword] at hopening
              cases hopening
        · exact ⟨t :: before, w, u, rest, rfl, hw, hkind, hloc, hdoc⟩

theorem Reading.declared_takeAll {tokens : List Token} (hr : r.recent.ended = false)
    (hkinds : ∀ t ∈ tokens, t.kind ≠ .eof) (h : r.takeAll tokens = .ok next) :
    next.declared = r.declared ++ r.recent.declaredBy tokens := by
  induction tokens generalizing r with
  | nil =>
      cases h
      simp [Recent.declaredBy]
  | cons t ts ih =>
      obtain ⟨s, hstep, hrest⟩ := Reading.exists_step h
      have hs := recent_step hr hstep
      have hended : s.recent.ended = false := by
        simpa [hs] using hkinds t List.mem_cons_self
      rw [ih hended (fun u hu => hkinds u (List.mem_cons_of_mem t hu)) hrest, declared_step hstep, hs,
        List.append_assoc]
      rfl

/-- A program has the declarations that its tokens write. -/
theorem declarations_of_programOf {tokens : List Token} {p : Program} (h : Ended tokens)
    (hp : programOf tokens = .ok p) : p.declarations = ({} : Recent).declaredBy tokens := by
  have hall := h.finished hp
  obtain ⟨init, last, rfl, hlast, hinit⟩ := h
  obtain ⟨r, hread, hstep⟩ := Reading.exists_concat hall
  have hname : last.kind.name? = none := by
    rw [hlast]
    rfl
  have hdeclared := Reading.declared_step hstep
  rw [Recent.declared?_of_name hname, Reading.declared_takeAll rfl hinit hread] at hdeclared
  rw [Recent.declaredBy_concat _ _ hname]
  simpa [Reading.declared, Reading.start, Reading.recent] using hdeclared

end Syntax

end ScriptLens
