import ScriptLens.Proofs.Syntax.WellFormed
import ScriptLens.Proofs.Token.Locations
import ScriptLens.Symbol.Collect

/-!
# Declarations in the order of their tokens

A declaration stands where one of its tokens does: its name, or the word that starts an import.  That token
is its anchor.  Reading adds at most the token it takes to the anchors, and only at their end, so the anchors
of a program are some of its tokens, in the order of the text.

Main statement: `anchorsOf_sublist`.
-/

namespace ScriptLens

open scoped List

/-! ### Statements of a program -/

mutual

/-- A statement and the statements in it, each before those that it holds. -/
def Stmt.walk : Stmt → List Stmt
  | .function name parameters body doc loc =>
      .function name parameters body doc loc :: walkOf body
  | .conditional condition body none loc => .conditional condition body none loc :: walkOf body
  | .conditional condition body (some otherwise) loc =>
      .conditional condition body (some otherwise) loc :: (walkOf body ++ walkOf otherwise)
  | .loop condition body loc => .loop condition body loc :: walkOf body
  | .foreign body thenBranch elseBranch loc =>
      .foreign body thenBranch elseBranch loc ::
        (body.walk ++ thenBranch.walk ++ elseBranch.walk)
  | s => [s]

/-- The statements in a part of a foreign statement. -/
def Slot.walk : Slot → List Stmt
  | .absent => []
  | .text _ => []
  | .statements body => walkOf body

/-- The statements of a list and all statements in them. -/
def walkOf : List Stmt → List Stmt
  | [] => []
  | s :: rest => s.walk ++ walkOf rest

end

/-- The symbols that a statement declares itself. -/
def Stmt.ownSymbols : Stmt → List Symbol
  | .declare constant name value doc loc => [.ofDeclaration constant name value doc loc]
  | .function name parameters _ doc loc => Symbol.ofFunction name parameters doc loc
  | .imports names source loc => Symbol.ofImport names source loc
  | _ => []

mutual

theorem Stmt.symbols_eq : ∀ s : Stmt, s.symbols = s.walk.flatMap Stmt.ownSymbols
  | .declare _ _ _ _ _ => by simp [Stmt.symbols, Stmt.walk, Stmt.ownSymbols]
  | .function _ _ body _ _ => by simp [Stmt.symbols, Stmt.walk, Stmt.ownSymbols, symbolsOf_eq body]
  | .imports _ _ _ => by simp [Stmt.symbols, Stmt.walk, Stmt.ownSymbols]
  | .conditional _ body none _ => by simp [Stmt.symbols, Stmt.walk, Stmt.ownSymbols, symbolsOf_eq body]
  | .conditional _ body (some otherwise) _ => by
      simp [Stmt.symbols, Stmt.walk, Stmt.ownSymbols, symbolsOf_eq body, symbolsOf_eq otherwise]
  | .loop _ body _ => by simp [Stmt.symbols, Stmt.walk, Stmt.ownSymbols, symbolsOf_eq body]
  | .result _ _ => by simp [Stmt.symbols, Stmt.walk, Stmt.ownSymbols]
  | .expression _ _ => by simp [Stmt.symbols, Stmt.walk, Stmt.ownSymbols]
  | .foreign body thenBranch elseBranch _ => by
      simp [Stmt.symbols, Stmt.walk, Stmt.ownSymbols, Slot.symbols_eq body, Slot.symbols_eq thenBranch,
        Slot.symbols_eq elseBranch]

theorem Slot.symbols_eq : ∀ s : Slot, s.symbols = s.walk.flatMap Stmt.ownSymbols
  | .absent => by simp [Slot.symbols, Slot.walk]
  | .text _ => by simp [Slot.symbols, Slot.walk]
  | .statements body => by simp [Slot.symbols, Slot.walk, symbolsOf_eq body]

/-- The symbols of a list of statements are those of the statements in it, in their order. -/
theorem symbolsOf_eq : ∀ body : List Stmt, symbolsOf body = (walkOf body).flatMap Stmt.ownSymbols
  | [] => by simp [symbolsOf, walkOf]
  | s :: rest => by simp [symbolsOf, walkOf, Stmt.symbols_eq s, symbolsOf_eq rest]

end

/-- The statements of a program and all statements in them, in the order of the text. -/
def Program.statements (p : Program) : List Stmt :=
  walkOf p.body

theorem Program.symbols_eq (p : Program) : p.symbols = p.statements.flatMap Stmt.ownSymbols :=
  symbolsOf_eq p.body

/-! ### Anchors -/

/-- A token without its surroundings, as a declaration is located at it. -/
abbrev Anchor := Kind × Option Location

/-- The token as an anchor. -/
def Token.anchor (t : Token) : Anchor :=
  (t.kind, some t.location)

/-- The token that a declaration is located at. -/
def Stmt.anchor? : Stmt → Option Anchor
  | .declare _ name _ _ loc => some (.identifier name, loc)
  | .function name _ _ _ loc => some (.identifier name, loc)
  | .imports _ _ loc => some (.keyword .importWord, loc)
  | _ => none

/-- The anchors of a list of statements. -/
def anchorsOf (body : List Stmt) : List Anchor :=
  (walkOf body).filterMap Stmt.anchor?

@[simp] theorem anchorsOf_nil : anchorsOf [] = [] := by simp [anchorsOf, walkOf]

theorem anchorsOf_cons (s : Stmt) (rest : List Stmt) :
    anchorsOf (s :: rest) = s.walk.filterMap Stmt.anchor? ++ anchorsOf rest := by
  simp [anchorsOf, walkOf]

@[simp] theorem anchorsOf_append (a b : List Stmt) :
    anchorsOf (a ++ b) = anchorsOf a ++ anchorsOf b := by
  induction a with
  | nil => simp
  | cons s rest ih => simp [anchorsOf_cons, ih]

@[simp] theorem anchorsOf_declare (constant : Bool) (name : String) (value : Option Expr)
    (doc : Option String) (loc : Option Location) :
    anchorsOf [.declare constant name value doc loc] = [(.identifier name, loc)] := by
  simp [anchorsOf, walkOf, Stmt.walk, Stmt.anchor?]

@[simp] theorem anchorsOf_function (name : String) (parameters : List String) (body : List Stmt)
    (doc : Option String) (loc : Option Location) :
    anchorsOf [.function name parameters body doc loc] = (.identifier name, loc) :: anchorsOf body := by
  simp [anchorsOf, walkOf, Stmt.walk, Stmt.anchor?]

@[simp] theorem anchorsOf_imports (names : List String) (source : String) (loc : Option Location) :
    anchorsOf [.imports names source loc] = [(.keyword .importWord, loc)] := by
  simp [anchorsOf, walkOf, Stmt.walk, Stmt.anchor?]

@[simp] theorem anchorsOf_conditional (condition : Expr) (body : List Stmt)
    (otherwise : Option (List Stmt)) (loc : Option Location) :
    anchorsOf [.conditional condition body otherwise loc] =
      anchorsOf body ++ anchorsOf (otherwise.getD []) := by
  cases otherwise <;> simp [anchorsOf, walkOf, Stmt.walk, List.filterMap_cons, Stmt.anchor?]

@[simp] theorem anchorsOf_loop (condition : Expr) (body : List Stmt) (loc : Option Location) :
    anchorsOf [.loop condition body loc] = anchorsOf body := by
  simp [anchorsOf, walkOf, Stmt.walk, List.filterMap_cons, Stmt.anchor?]

@[simp] theorem anchorsOf_result (value : Option Expr) (loc : Option Location) :
    anchorsOf [.result value loc] = [] := by
  simp [anchorsOf, walkOf, Stmt.walk, Stmt.anchor?]

@[simp] theorem anchorsOf_expression (value : Expr) (loc : Option Location) :
    anchorsOf [.expression value loc] = [] := by
  simp [anchorsOf, walkOf, Stmt.walk, Stmt.anchor?]

namespace Syntax

/-- The anchors in the earlier branches of a chain, the latest of which comes first in the list. -/
def chainAnchors : List Branch → List Anchor
  | [] => []
  | branch :: earlier => chainAnchors earlier ++ anchorsOf branch.body

@[simp] theorem anchorsOf_nest (chain : List Branch) (innermost : Stmt) :
    anchorsOf [nest chain innermost] = chainAnchors chain ++ anchorsOf [innermost] := by
  induction chain generalizing innermost with
  | nil => rfl
  | cons branch earlier ih =>
      have hnest : nest (branch :: earlier) innermost = nest earlier
          (.conditional branch.condition branch.body (some [innermost]) branch.location) := rfl
      rw [hnest, ih, anchorsOf_conditional, chainAnchors]
      simp

mutual

/-- The anchors of what was read around a list of statements and in it.  The statements of a function
without a name are not walked through. -/
def Scope.anchors : Scope → List Anchor
  | .program done _ => anchorsOf done
  | .function name _ _ loc done outer =>
      outer.anchors ++ (.identifier name, some loc) :: anchorsOf done
  | .lambda _ _ _ outer => outer.anchors
  | .branch _ _ chain done outer => outer.anchors ++ chainAnchors chain ++ anchorsOf done
  | .otherwise last chain done outer =>
      outer.anchors ++ chainAnchors chain ++ anchorsOf last.body ++ anchorsOf done
  | .loop _ _ done outer => outer.anchors ++ anchorsOf done

/-- The anchors of what was read around a place for an expression. -/
def Hole.anchors : Hole → List Anchor
  | .statement _ outer => outer.anchors
  | .initial _ name _ loc outer => outer.anchors ++ [(.identifier name, some loc)]
  | .result _ outer => outer.anchors
  | .branchCondition _ chain outer => outer.anchors ++ chainAnchors chain
  | .loopCondition _ outer => outer.anchors
  | .parenthesis outer => outer.anchors
  | .element _ _ outer => outer.anchors
  | .property _ _ _ _ outer => outer.anchors
  | .argument _ _ outer => outer.anchors
  | .key _ outer => outer.anchors
  | .operand _ _ outer => outer.anchors
  | .right _ _ outer => outer.anchors
  | .assigned _ outer => outer.anchors

end

/-- The anchors of what was read around the parameters of a function, with its own. -/
def Callable.anchors : Callable → List Anchor
  | .named name _ loc outer => outer.anchors ++ [(.identifier name, some loc)]
  | .anonymous _ outer => outer.anchors

/-- The anchors of the earlier branches of a condition. -/
def Guard.anchors : Guard → List Anchor
  | .branch chain => chainAnchors chain
  | .loop => []

/-- The anchors of what was read so far. -/
def Reading.anchors : Reading → List Anchor
  | .statement _ scope => scope.anchors
  | .operand hole => hole.anchors
  | .operator _ hole => hole.anchors
  | .argument _ _ hole => hole.anchors
  | .element _ _ hole => hole.anchors
  | .key _ _ hole => hole.anchors
  | .value _ _ _ _ hole => hole.anchors
  | .memberName _ hole => hole.anchors
  | .importHead loc scope => scope.anchors ++ [(.keyword .importWord, some loc)]
  | .importName loc _ scope => scope.anchors ++ [(.keyword .importWord, some loc)]
  | .importNext loc _ scope => scope.anchors ++ [(.keyword .importWord, some loc)]
  | .importFrom loc _ scope => scope.anchors ++ [(.keyword .importWord, some loc)]
  | .importSource loc _ scope => scope.anchors ++ [(.keyword .importWord, some loc)]
  | .declaredName _ _ scope => scope.anchors
  | .initial _ name _ loc scope => scope.anchors ++ [(.identifier name, some loc)]
  | .functionHead _ _ scope => scope.anchors
  | .parameters owner => owner.anchors
  | .parameterName owner _ => owner.anchors
  | .parameterNext owner _ => owner.anchors
  | .condition guard _ scope => scope.anchors ++ guard.anchors
  | .block inner => inner.anchors
  | .afterBranch last chain scope => scope.anchors ++ chainAnchors chain ++ anchorsOf last.body
  | .elseHead last chain scope => scope.anchors ++ chainAnchors chain ++ anchorsOf last.body
  | .result _ scope => scope.anchors
  | .complete program => anchorsOf program.body

/-! ### Anchors of finished parts -/

/-- A finished statement adds its anchors, unless nobody walks through the scope. -/
theorem Scope.anchors_push (scope : Scope) (s : Stmt) :
    (scope.push s).anchors <+ scope.anchors ++ anchorsOf [s] := by
  cases scope <;> simp [push, anchors]

theorem Scope.anchors_pushChain (scope : Scope) (last : Branch) (otherwise : Option (List Stmt))
    (chain : List Branch) :
    (scope.pushChain last otherwise chain).anchors <+
      scope.anchors ++ chainAnchors chain ++ anchorsOf last.body ++ anchorsOf (otherwise.getD []) := by
  have h := scope.anchors_push (nest chain (.conditional last.condition last.body otherwise last.location))
  simpa [Scope.pushChain] using h

@[simp] theorem anchors_afterOperand (e : Expr) (hole : Hole) :
    (afterOperand e hole).anchors = hole.anchors := by
  fun_induction afterOperand e hole with
  | case1 e op loc outer ih => simpa [Hole.anchors] using ih
  | case2 e hole h => rfl

@[simp] theorem anchors_absorb (precedence : Nat) (e : Expr) (hole : Hole) :
    (absorb precedence e hole).2.anchors = hole.anchors := by
  fun_induction absorb precedence e hole with
  | case1 e left op outer h ih => simpa [Hole.anchors] using ih
  | case2 e left op outer h => rfl
  | case3 e hole h => rfl

theorem Callable.anchors_scope (owner : Callable) (names : List String) :
    (owner.scope names).anchors = owner.anchors := by
  cases owner <;> simp [Callable.scope, Callable.anchors, Scope.anchors]

/-! ### One token -/

variable {t : Token} {r next : Reading}

theorem Scope.anchors_close {scope : Scope} (h : scope.close = .ok next) :
    next.anchors <+ scope.anchors := by
  cases scope with
  | program done loc => cases h
  | function name parameters doc loc done outer =>
      cases h
      simpa [Reading.anchors, anchors] using
        outer.anchors_push (.function name parameters done doc loc)
  | lambda parameters loc done outer =>
      cases h
      simp [anchors]
  | branch condition loc chain done outer =>
      cases h
      simp [Reading.anchors, anchors]
  | otherwise last chain done outer =>
      cases h
      simpa [Reading.anchors, anchors] using outer.anchors_pushChain last (some done) chain
  | loop condition loc done outer =>
      cases h
      simpa [Reading.anchors, anchors] using outer.anchors_push (.loop condition done loc)

theorem Scope.anchors_finish {scope : Scope} (h : scope.finish = .ok next) :
    next.anchors = scope.anchors := by
  cases scope with
  | program done loc =>
      cases h
      rfl
  | _ => cases h

theorem Hole.anchors_begin {hole : Hole} (h : hole.begin t = .ok next) :
    next.anchors = hole.anchors := by
  unfold Hole.begin at h
  split at h <;> cases h
  · exact anchors_afterOperand _ hole
  · exact anchors_afterOperand _ hole
  · exact anchors_afterOperand _ hole
  all_goals rfl

theorem Scope.anchors_begin {scope : Scope} {doc : Option String}
    (h : scope.begin doc t = .ok next) : next.anchors <+ scope.anchors ++ [t.anchor] := by
  have hkeep : ∀ {l : List Anchor}, l <+ scope.anchors → l <+ scope.anchors ++ [t.anchor] :=
    fun hl => hl.trans (List.sublist_append_left _ _)
  unfold Scope.begin at h
  split at h
  · exact hkeep (Scope.anchors_finish h ▸ List.Sublist.refl _)
  · exact hkeep (Scope.anchors_close h)
  · split at h <;> cases h
    exact hkeep (List.Sublist.refl _)
  · cases h
    exact hkeep (List.Sublist.refl _)
  · rename_i hkind
    cases h
    simp [Reading.anchors, Token.anchor, hkind]
  · cases h
    exact hkeep (List.Sublist.refl _)
  · cases h
    exact hkeep (List.Sublist.refl _)
  · cases h
    exact hkeep (List.Sublist.refl _)
  · cases h
    simp [Reading.anchors, Guard.anchors, chainAnchors]
  · cases h
    simp [Reading.anchors, Guard.anchors]
  · cases h
    exact hkeep (List.Sublist.refl _)
  · exact hkeep (Hole.anchors_begin h ▸ List.Sublist.refl _)

/-- A token after a finished statement starts the next one. -/
theorem Scope.anchors_push_begin {scope : Scope} {s : Stmt} {before : List Anchor}
    (hbefore : scope.anchors ++ anchorsOf [s] = before)
    (h : (scope.push s).begin none t = .ok next) : next.anchors <+ before ++ [t.anchor] := by
  subst hbefore
  exact (Scope.anchors_begin h).trans ((scope.anchors_push s).append_right _)

theorem Scope.anchors_enter {scope : Scope} (h : scope.enter t = .ok next) :
    next.anchors = scope.anchors := by
  unfold Scope.enter at h
  split at h <;> cases h
  rfl

theorem anchors_afterEntry {loc : Location} {done : List Property} {hole : Hole}
    (h : afterEntry loc done hole t = .ok next) : next.anchors = hole.anchors := by
  unfold afterEntry at h
  split at h <;> cases h
  · rfl
  · simp

theorem Hole.anchors_fill {e : Expr} {hole : Hole} (h : hole.fill e t = .ok next) :
    next.anchors <+ hole.anchors ++ [t.anchor] := by
  have hkeep : ∀ {l k : List Anchor}, l = k → l <+ k ++ [t.anchor] := by
    rintro l k rfl
    exact List.sublist_append_left _ _
  fun_induction Hole.fill e t hole with
  | case1 e loc outer => exact Scope.anchors_push_begin (by simp [anchors]) h
  | case2 e constant name doc loc outer => exact Scope.anchors_push_begin (by simp [anchors]) h
  | case3 e loc outer => exact Scope.anchors_push_begin (by simp [anchors]) h
  | case4 e loc chain outer hkind =>
      cases h
      exact hkeep (by simp [Reading.anchors, Scope.anchors, anchors])
  | case6 e loc outer hkind =>
      cases h
      exact hkeep (by simp [Reading.anchors, Scope.anchors, anchors])
  | case8 e outer hkind =>
      cases h
      exact hkeep (by simp [anchors])
  | case10 e loc done outer hkind =>
      cases h
      exact hkeep rfl
  | case11 e loc done outer hkind =>
      cases h
      exact hkeep (by simp [anchors])
  | case13 e loc done name nameLoc outer =>
      have hentry := anchors_afterEntry h
      exact hkeep hentry
  | case14 e callee done outer hkind =>
      cases h
      exact hkeep rfl
  | case15 e callee done outer hkind =>
      cases h
      exact hkeep rfl
  | case17 e object outer hkind =>
      cases h
      exact hkeep rfl
  | case19 e op loc outer ih => exact ih h
  | case20 e left op outer ih => exact ih h
  | case21 e target outer ih => exact ih h
  | _ => cases h

theorem Hole.anchors_extend {left : Expr} {hole : Hole} (h : hole.extend left t = .ok next) :
    next.anchors <+ hole.anchors ++ [t.anchor] := by
  have hkeep : ∀ {l k : List Anchor}, l = k → l <+ k ++ [t.anchor] := by
    rintro l k rfl
    exact List.sublist_append_left _ _
  unfold Hole.extend at h
  split at h
  · cases h
    exact hkeep rfl
  · cases h
    exact hkeep rfl
  · cases h
    exact hkeep rfl
  · dsimp only at h
    split at h <;> cases h
    exact hkeep (by simp [Reading.anchors, anchors])
  · split at h
    · cases h
      exact hkeep (by simp [Reading.anchors, anchors])
    · exact Hole.anchors_fill h
  · exact Hole.anchors_fill h

/-- One token adds at most itself to the anchors. -/
theorem Reading.anchors_step (h : r.step t = .ok next) :
    next.anchors <+ r.anchors ++ [t.anchor] := by
  have hkeep : ∀ {l k : List Anchor}, l = k → l <+ k ++ [t.anchor] := by
    rintro l k rfl
    exact List.sublist_append_left _ _
  unfold Reading.step at h
  split at h
  · exact Scope.anchors_begin h
  · exact hkeep (Hole.anchors_begin h)
  · exact Hole.anchors_extend h
  · split at h
    · cases h
      exact hkeep rfl
    · have hbegin := Hole.anchors_begin h
      exact hkeep hbegin
  · split at h
    · cases h
      exact hkeep (anchors_afterOperand _ _)
    · have hbegin := Hole.anchors_begin h
      exact hkeep hbegin
  · split at h <;> cases h
    · exact hkeep (anchors_afterOperand _ _)
    · exact hkeep rfl
    · exact hkeep rfl
  · split at h
    · cases h
      exact hkeep rfl
    · exact hkeep (anchors_afterEntry h)
  · split at h <;> cases h
    · exact hkeep rfl
    · exact hkeep rfl
  · split at h <;> cases h
    · exact hkeep rfl
    · exact hkeep rfl
  · split at h <;> cases h
    · exact hkeep rfl
    · exact hkeep rfl
  · split at h <;> cases h
    · exact hkeep rfl
    · exact hkeep rfl
  · split at h <;> cases h
    exact hkeep rfl
  · rename_i loc names scope
    split at h <;> cases h
    rename_i source hkind
    have hpush := scope.anchors_push (.imports names source loc)
    rw [anchorsOf_imports] at hpush
    exact hpush.trans (List.sublist_append_left _ _)
  · -- the name of a variable is the anchor of its declaration
    split at h <;> cases h
    rename_i name hkind
    simp [anchors, Token.anchor, hkind]
  · split at h
    · cases h
      exact hkeep rfl
    · split at h
      · cases h
      · exact Scope.anchors_push_begin (by simp [anchors]) h
  · split at h
    · -- and so is the name of a function
      rename_i name hkind
      cases h
      simp [anchors, Callable.anchors, Token.anchor, hkind]
    · unfold Callable.begin at h
      split at h <;> cases h
      exact hkeep rfl
  · unfold Callable.begin at h
    split at h <;> cases h
    exact hkeep rfl
  · split at h <;> cases h
    · exact hkeep (Callable.anchors_scope _ _)
    · exact hkeep rfl
  · split at h <;> cases h
    · exact hkeep rfl
    · exact hkeep (Callable.anchors_scope _ _)
  · split at h <;> cases h
    exact hkeep rfl
  · split at h <;> cases h
    exact hkeep (by simp [anchors, Hole.anchors, Guard.anchors])
  · exact hkeep (Scope.anchors_enter h)
  · rename_i last chain scope
    split at h
    · cases h
      exact hkeep rfl
    · have hpush := scope.anchors_pushChain last none chain
      rw [Option.getD_none, anchorsOf_nil, List.append_nil] at hpush
      exact (Scope.anchors_begin h).trans (hpush.append_right _)
  · split at h
    · cases h
      exact hkeep (by simp [anchors, Guard.anchors, chainAnchors])
    · have henter := Scope.anchors_enter h
      exact hkeep (henter.trans (by simp [anchors, Scope.anchors]))
  · split at h
    · exact Scope.anchors_push_begin (by simp [anchors]) h
    · exact Scope.anchors_push_begin (by simp [anchors]) h
    · exact Scope.anchors_push_begin (by simp [anchors]) h
    · exact hkeep (Hole.anchors_begin h)
  · cases h
    exact hkeep rfl

/-! ### All tokens -/

/-- Tokens add at most themselves to the anchors, in their order. -/
theorem Reading.anchors_takeAll {tokens : List Token} (h : r.takeAll tokens = .ok next) :
    next.anchors <+ r.anchors ++ tokens.map Token.anchor := by
  induction tokens generalizing r with
  | nil =>
      cases h
      simp
  | cons t ts ih =>
      rw [Reading.takeAll, Reading.take] at h
      cases hstep : r.step t with
      | error complaint =>
          rw [hstep] at h
          cases h
      | ok middle =>
          rw [hstep] at h
          have hrest := (ih h).trans ((Reading.anchors_step hstep).append_right _)
          simpa using hrest

theorem anchorsOf_ne_eof {body : List Stmt} {a : Anchor} (h : a ∈ anchorsOf body) : a.1 ≠ .eof := by
  obtain ⟨s, -, hs⟩ := List.mem_filterMap.mp h
  cases s <;> cases hs <;> simp

/-- A token that is no anchor of a declaration can be left out. -/
theorem anchorsOf_sublist_of_append {body : List Stmt} {anchors : List Anchor} {last : Token}
    (hlast : last.kind = .eof) (h : anchorsOf body <+ anchors ++ [last.anchor]) :
    anchorsOf body <+ anchors := by
  obtain ⟨front, back, hsplit, hfront, hback⟩ := List.sublist_append_iff.mp h
  cases back with
  | nil =>
      rw [hsplit, List.append_nil]
      exact hfront
  | cons a rest =>
      have ha : a = last.anchor := by simpa using hback.subset List.mem_cons_self
      have hmem : a ∈ anchorsOf body := by simp [hsplit]
      exact absurd (by rw [ha]; exact hlast) (anchorsOf_ne_eof hmem)

/-- The declarations of a program stand at tokens that it was read from, in the order of these tokens. -/
theorem anchorsOf_sublist {tokens : List Token} {p : Program} (h : programOf tokens = .ok p) :
    anchorsOf p.body <+ tokens.map Token.anchor := by
  rw [programOf] at h
  cases hrun : (Reading.start tokens).takeAll tokens with
  | error m =>
      rw [hrun] at h
      cases h
  | ok r =>
      have hr : r.anchors <+ tokens.map Token.anchor := by
        simpa [Reading.start, Reading.anchors, Scope.anchors] using Reading.anchors_takeAll hrun
      simp only [hrun, bind, Except.bind] at h
      split at h
      · obtain rfl := Except.ok.inj h
        exact hr
      · -- a list without the mark of its end is read with one added
        split at h
        · cases h
        · rename_i unfinished hunfinished _ next hnext
          split at h
          · rename_i program
            obtain rfl := Except.ok.inj h
            rw [Reading.take] at hnext
            cases hstep : r.step ⟨.eof, (tokens.getLast?.map Token.location).getD (.start none)⟩ with
            | error complaint =>
                rw [hstep] at hnext
                cases hnext
            | ok complete =>
                rw [hstep] at hnext
                obtain rfl := Except.ok.inj hnext
                exact anchorsOf_sublist_of_append rfl
                  ((Reading.anchors_step hstep).trans (hr.append_right _))
          · cases h

end Syntax

end ScriptLens
