import ScriptLens.Proofs.Syntax.ReadsExpr
import ScriptLens.Proofs.Syntax.WellFormed
import ScriptLens.Proofs.Token.Locations

/-!
# The first token that does not fit

Whatever was read so far can be read to an end: every open construct has kinds that close it
(`Reading.closing`), and reading them leads to a program.  So the tokens before one that does not fit are
the beginning of a program, and no token before it is to blame.  The tokens behind it were not looked at,
so they have no say in the complaint either.

Main statements: `reads_closing` and `read_stops_at_first_misfit`.
-/

namespace ScriptLens.Syntax

/-! ### What closes an unfinished program -/

mutual

/-- Kinds that close a scope and everything around it. -/
def Scope.closing : Scope → List Kind
  | .program _ _ => [.eof]
  | .function _ _ _ _ _ outer => .mark .closeBrace :: outer.closing
  | .lambda _ _ _ outer => .mark .closeBrace :: outer.closing
  | .branch _ _ _ _ outer => .mark .closeBrace :: outer.closing
  | .otherwise _ _ _ outer => .mark .closeBrace :: outer.closing
  | .loop _ _ _ outer => .mark .closeBrace :: outer.closing

/-- Kinds that close everything around a place, once an expression stands in it. -/
def Hole.closing : Hole → List Kind
  | .statement _ outer => outer.closing
  | .initial _ _ _ _ outer => outer.closing
  | .result _ outer => outer.closing
  | .branchCondition _ _ outer =>
      .mark .closeParen :: .mark .openBrace :: .mark .closeBrace :: outer.closing
  | .loopCondition _ outer =>
      .mark .closeParen :: .mark .openBrace :: .mark .closeBrace :: outer.closing
  | .parenthesis outer => .mark .closeParen :: outer.closing
  | .element _ _ outer => .mark .closeBracket :: outer.closing
  | .property _ _ _ _ outer => .mark .closeBrace :: outer.closing
  | .argument _ _ outer => .mark .closeParen :: outer.closing
  | .key _ outer => .mark .closeBracket :: outer.closing
  | .operand _ _ outer => outer.closing
  | .right _ _ outer => outer.closing
  | .assigned _ outer => outer.closing

end

/-- Any operand. -/
def someOperand : Kind := .identifier "x"

/-- Kinds that go on from any point of a program to its end. -/
def Reading.closing : Reading → List Kind
  | .statement _ scope => scope.closing
  | .operand hole => someOperand :: hole.closing
  | .operator _ hole => hole.closing
  | .argument _ _ hole => .mark .closeParen :: hole.closing
  | .element _ _ hole => .mark .closeBracket :: hole.closing
  | .key _ _ hole => .mark .closeBrace :: hole.closing
  | .value _ _ _ _ hole => .mark .closeBrace :: hole.closing
  | .memberName _ hole => someOperand :: hole.closing
  | .importHead _ scope => someOperand :: .keyword .fromWord :: .string "" :: scope.closing
  | .importName _ _ scope =>
      .mark .closeBrace :: .keyword .fromWord :: .string "" :: scope.closing
  | .importNext _ _ scope =>
      .mark .closeBrace :: .keyword .fromWord :: .string "" :: scope.closing
  | .importFrom _ _ scope => .keyword .fromWord :: .string "" :: scope.closing
  | .importSource _ _ scope => .string "" :: scope.closing
  | .declaredName _ _ scope => someOperand :: .mark .assign :: someOperand :: scope.closing
  | .initial _ _ _ _ scope => .mark .assign :: someOperand :: scope.closing
  | .functionHead _ loc scope =>
      .mark .openParen :: .mark .closeParen :: .mark .openBrace ::
        (Scope.lambda [] loc [] (.statement loc scope)).closing
  | .parameters owner =>
      .mark .openParen :: .mark .closeParen :: .mark .openBrace :: (owner.scope []).closing
  | .parameterName owner names =>
      .mark .closeParen :: .mark .openBrace :: (owner.scope names).closing
  | .parameterNext owner names =>
      .mark .closeParen :: .mark .openBrace :: (owner.scope names).closing
  | .condition (.branch chain) loc scope =>
      .mark .openParen :: someOperand :: (Hole.branchCondition loc chain scope).closing
  | .condition .loop loc scope =>
      .mark .openParen :: someOperand :: (Hole.loopCondition loc scope).closing
  | .block inner => .mark .openBrace :: inner.closing
  | .afterBranch _ _ scope => scope.closing
  | .elseHead last chain scope =>
      .mark .openBrace :: (Scope.otherwise last chain [] scope).closing
  | .result _ scope => scope.closing
  | .complete _ => [.eof]

/-! ### The first of these kinds -/

/-- A scope is closed by its brace, the program by the end of the text. -/
theorem Scope.closing_eq_cons (scope : Scope) :
    ∃ kind rest, scope.closing = kind :: rest ∧ (kind = .eof ∨ kind = .mark .closeBrace) := by
  cases scope with
  | program done loc => exact ⟨_, _, rfl, Or.inl rfl⟩
  | _ => exact ⟨_, _, rfl, Or.inr rfl⟩

/-- Kinds that end the expression before them. -/
def EndsExpr (kind : Kind) : Prop :=
  kind = .eof ∨ ∃ m ∈ ending, kind = .mark m

/-- Such a kind fills the place with the expression before it. -/
theorem EndsExpr.step {kind : Kind} (h : EndsExpr kind) (e : Expr) (hole : Hole) (loc : Location) :
    (Reading.operator e hole).step ⟨kind, loc⟩ = hole.fill e ⟨kind, loc⟩ := by
  rcases h with rfl | ⟨m, hm, rfl⟩
  · rfl
  · exact step_ending hm e hole loc

theorem Scope.closing_endsExpr (scope : Scope) :
    ∃ kind rest, scope.closing = kind :: rest ∧ EndsExpr kind := by
  obtain ⟨kind, rest, hclosing, rfl | rfl⟩ := scope.closing_eq_cons
  · exact ⟨_, rest, hclosing, Or.inl rfl⟩
  · exact ⟨_, rest, hclosing, Or.inr ⟨.closeBrace, by decide, rfl⟩⟩

/-- What closes all around a place starts with the end of the expression in it. -/
theorem Hole.closing_endsExpr :
    (hole : Hole) → ∃ kind rest, hole.closing = kind :: rest ∧ EndsExpr kind
  | .statement _ outer => outer.closing_endsExpr
  | .initial _ _ _ _ outer => outer.closing_endsExpr
  | .result _ outer => outer.closing_endsExpr
  | .branchCondition _ _ _ => ⟨_, _, rfl, Or.inr ⟨.closeParen, by decide, rfl⟩⟩
  | .loopCondition _ _ => ⟨_, _, rfl, Or.inr ⟨.closeParen, by decide, rfl⟩⟩
  | .parenthesis _ => ⟨_, _, rfl, Or.inr ⟨.closeParen, by decide, rfl⟩⟩
  | .element _ _ _ => ⟨_, _, rfl, Or.inr ⟨.closeBracket, by decide, rfl⟩⟩
  | .property _ _ _ _ _ => ⟨_, _, rfl, Or.inr ⟨.closeBrace, by decide, rfl⟩⟩
  | .argument _ _ _ => ⟨_, _, rfl, Or.inr ⟨.closeParen, by decide, rfl⟩⟩
  | .key _ _ => ⟨_, _, rfl, Or.inr ⟨.closeBracket, by decide, rfl⟩⟩
  | .operand _ _ outer => outer.closing_endsExpr
  | .right _ _ outer => outer.closing_endsExpr
  | .assigned _ outer => outer.closing_endsExpr

/-! ### The last of these kinds -/

/-- Kinds of which the last is the end of the text and no other is. -/
def EndedKinds (kinds : List Kind) : Prop :=
  ∃ init, kinds = init ++ [.eof] ∧ .eof ∉ init

theorem endedKinds_eof : EndedKinds [.eof] := ⟨[], rfl, by simp⟩

theorem EndedKinds.cons {kinds : List Kind} (h : EndedKinds kinds) {kind : Kind}
    (hkind : kind ≠ .eof) : EndedKinds (kind :: kinds) := by
  obtain ⟨init, rfl, hinit⟩ := h
  exact ⟨kind :: init, rfl, by simp [hinit, Ne.symm hkind]⟩

mutual

theorem Scope.endedKinds : (scope : Scope) → EndedKinds scope.closing
  | .program _ _ => endedKinds_eof
  | .function _ _ _ _ _ outer => outer.endedKinds.cons (by decide)
  | .lambda _ _ _ outer => outer.endedKinds.cons (by decide)
  | .branch _ _ _ _ outer => outer.endedKinds.cons (by decide)
  | .otherwise _ _ _ outer => outer.endedKinds.cons (by decide)
  | .loop _ _ _ outer => outer.endedKinds.cons (by decide)

theorem Hole.endedKinds : (hole : Hole) → EndedKinds hole.closing
  | .statement _ outer => outer.endedKinds
  | .initial _ _ _ _ outer => outer.endedKinds
  | .result _ outer => outer.endedKinds
  | .branchCondition _ _ outer =>
      ((outer.endedKinds.cons (by decide)).cons (by decide)).cons (by decide)
  | .loopCondition _ outer =>
      ((outer.endedKinds.cons (by decide)).cons (by decide)).cons (by decide)
  | .parenthesis outer => outer.endedKinds.cons (by decide)
  | .element _ _ outer => outer.endedKinds.cons (by decide)
  | .property _ _ _ _ outer => outer.endedKinds.cons (by decide)
  | .argument _ _ outer => outer.endedKinds.cons (by decide)
  | .key _ outer => outer.endedKinds.cons (by decide)
  | .operand _ _ outer => outer.endedKinds
  | .right _ _ outer => outer.endedKinds
  | .assigned _ outer => outer.endedKinds

end

/-- What goes on to the end of a program ends there and not before. -/
theorem Reading.endedKinds (r : Reading) : EndedKinds r.closing := by
  have himport : ∀ scope : Scope,
      EndedKinds (.keyword .fromWord :: .string "" :: scope.closing) :=
    fun scope => (scope.endedKinds.cons (by simp)).cons (by simp)
  have hoperand : ∀ hole : Hole, EndedKinds (someOperand :: hole.closing) :=
    fun hole => hole.endedKinds.cons (by simp [someOperand])
  have hblock : ∀ scope : Scope, EndedKinds (.mark .openBrace :: scope.closing) :=
    fun scope => scope.endedKinds.cons (by simp)
  cases r with
  | statement doc scope => exact scope.endedKinds
  | operand hole => exact hoperand hole
  | operator left hole => exact hole.endedKinds
  | argument callee done hole => exact hole.endedKinds.cons (by simp)
  | element loc done hole => exact hole.endedKinds.cons (by simp)
  | key loc done hole => exact hole.endedKinds.cons (by simp)
  | value loc done name nameLoc hole => exact hole.endedKinds.cons (by simp)
  | memberName object hole => exact hoperand hole
  | importHead loc scope => exact (himport scope).cons (by simp [someOperand])
  | importName loc names scope => exact (himport scope).cons (by simp)
  | importNext loc names scope => exact (himport scope).cons (by simp)
  | importFrom loc names scope => exact himport scope
  | importSource loc names scope => exact scope.endedKinds.cons (by simp)
  | declaredName constant doc scope =>
      exact ((hoperand (.initial constant "" doc default scope)).cons (by simp)).cons
        (by simp [someOperand])
  | initial constant name doc loc scope =>
      exact (hoperand (.initial constant name doc loc scope)).cons (by simp)
  | functionHead doc loc scope => exact ((hblock _).cons (by simp)).cons (by simp)
  | parameters owner => exact ((hblock _).cons (by simp)).cons (by simp)
  | parameterName owner names => exact (hblock _).cons (by simp)
  | parameterNext owner names => exact (hblock _).cons (by simp)
  | condition guard loc scope =>
      cases guard with
      | branch chain => exact (hoperand _).cons (by simp)
      | loop => exact (hoperand _).cons (by simp)
  | block inner => exact hblock inner
  | afterBranch last chain scope => exact scope.endedKinds
  | elseHead last chain scope => exact hblock _
  | result loc scope => exact scope.endedKinds
  | complete program => exact endedKinds_eof

/-! ### Reading to an end -/

/-- The program has ended. -/
def Finished (r : Reading) : Prop :=
  ∃ p, r = .complete p

theorem Scope.push_eq_append (scope : Scope) (s : Stmt) : scope.push s = scope.append [s] := by
  rw [Scope.append_cons, Scope.append_nil]

/-- A scope can be read to an end, whatever stands in it so far. -/
def Scope.Closes (scope : Scope) : Prop :=
  ∀ ss doc, Reads Finished (.statement doc (scope.append ss)) scope.closing

/-- All around a place can be read to an end once an expression stands in it. -/
def Hole.Closes (hole : Hole) : Prop :=
  ∀ e, Reads Finished (.operator e hole) hole.closing ∧
    Reads Finished (afterOperand e hole) hole.closing

/-- With one more statement a scope can still be read to an end. -/
theorem Scope.Closes.push {scope : Scope} (h : scope.Closes) (s : Stmt) (doc : Option String) :
    Reads Finished (.statement doc (scope.push s)) scope.closing := by
  rw [Scope.push_eq_append]
  exact h [s] doc

/-- Where what closes a scope also ends the statement before it, the scope can be read to an end. -/
theorem Scope.Closes.of_begin {scope : Scope} (h : scope.Closes) {s : Stmt} {r : Reading}
    (hstep : ∀ t : Token, t.kind = .eof ∨ t.kind = .mark .closeBrace →
      r.step t = (scope.push s).begin none t) : Reads Finished r scope.closing := by
  have hreads := h.push s none
  obtain ⟨kind, rest, hclosing, hkind⟩ := scope.closing_eq_cons
  rw [hclosing] at hreads ⊢
  apply hreads.of_step
  intro loc
  exact hstep ⟨kind, loc⟩ hkind

theorem Scope.Closes.ofFill {scope : Scope} (h : scope.Closes) {hole : Hole} {e : Expr} {s : Stmt}
    (hfill : ∀ t, hole.fill e t = (scope.push s).begin none t) :
    Reads Finished (.operator e hole) scope.closing := by
  apply h.of_begin (s := s)
  rintro ⟨kind, loc⟩ (rfl | rfl)
  · exact hfill _
  · exact hfill _

/-- Where an operator passes the end of its operand on, so does the place. -/
theorem Hole.Closes.ofFill {outer hole : Hole} (h : outer.Closes) {e whole : Expr}
    (hfill : ∀ t, hole.fill e t = outer.fill whole t) :
    Reads Finished (.operator e hole) outer.closing := by
  have hreads := (h whole).1
  obtain ⟨kind, rest, hclosing, hkind⟩ := outer.closing_endsExpr
  rw [hclosing] at hreads ⊢
  apply hreads.of_step
  intro loc
  rw [hkind.step, hkind.step, hfill]

/-- A place that is not behind a unary operator needs to be looked at only before an operator. -/
theorem closes_of_operator {hole : Hole} (hafter : ∀ e, afterOperand e hole = .operator e hole)
    (h : ∀ e, Reads Finished (.operator e hole) hole.closing) : hole.Closes := by
  intro e
  rw [hafter]
  exact ⟨h e, h e⟩

/-- Behind a branch no `else` has to follow. -/
theorem Scope.Closes.afterBranch {outer : Scope} (h : outer.Closes) (last : Branch)
    (chain : List Branch) : Reads Finished (.afterBranch last chain outer) outer.closing := by
  apply h.of_begin (s := nest chain (.conditional last.condition last.body none last.location))
  rintro ⟨kind, loc⟩ (rfl | rfl) <;> rfl

theorem Scope.Closes.branch {outer : Scope} (h : outer.Closes) (condition : Expr) (loc : Location)
    (chain : List Branch) (done : List Stmt) : (Scope.branch condition loc chain done outer).Closes :=
  fun ss _ _ => ⟨_, rfl, h.afterBranch ⟨condition, done ++ ss, loc⟩ chain⟩

theorem Scope.Closes.loop {outer : Scope} (h : outer.Closes) (condition : Expr) (loc : Location)
    (done : List Stmt) : (Scope.loop condition loc done outer).Closes :=
  fun ss _ _ => ⟨_, rfl, h.push (.loop condition (done ++ ss) loc) none⟩

mutual

/-- Every scope can be read to an end. -/
theorem Scope.closes : (scope : Scope) → scope.Closes
  | .program _ _ => fun _ _ _ => ⟨_, rfl, _, rfl⟩
  | .function _ _ _ _ _ outer => fun _ _ _ => ⟨_, rfl, outer.closes.push _ none⟩
  | .lambda _ _ _ outer => fun _ _ _ => ⟨_, rfl, (outer.closes _).2⟩
  | .branch condition loc chain done outer => outer.closes.branch condition loc chain done
  | .otherwise _ _ _ outer => fun _ _ _ => ⟨_, rfl, outer.closes.push _ none⟩
  | .loop condition loc done outer => outer.closes.loop condition loc done

/-- All around every place can be read to an end. -/
theorem Hole.closes : (hole : Hole) → hole.Closes
  | .statement loc outer => closes_of_operator (fun _ => rfl) fun e =>
      outer.closes.ofFill (s := .expression e loc) fun _ => rfl
  | .initial constant name doc loc outer => closes_of_operator (fun _ => rfl) fun e =>
      outer.closes.ofFill (s := .declare constant name (some e) doc loc) fun _ => rfl
  | .result loc outer => closes_of_operator (fun _ => rfl) fun e =>
      outer.closes.ofFill (s := .result (some e) loc) fun _ => rfl
  | .branchCondition loc chain outer => closes_of_operator (fun _ => rfl) fun e _ =>
      ⟨_, rfl, fun _ => ⟨_, rfl, outer.closes.branch e loc chain [] [] none⟩⟩
  | .loopCondition loc outer => closes_of_operator (fun _ => rfl) fun e _ =>
      ⟨_, rfl, fun _ => ⟨_, rfl, outer.closes.loop e loc [] [] none⟩⟩
  | .parenthesis outer => closes_of_operator (fun _ => rfl) fun e _ => ⟨_, rfl, (outer.closes e).2⟩
  | .element _ _ outer => closes_of_operator (fun _ => rfl) fun _ _ => ⟨_, rfl, (outer.closes _).2⟩
  | .property _ _ _ _ outer => closes_of_operator (fun _ => rfl) fun _ _ =>
      ⟨_, rfl, (outer.closes _).2⟩
  | .argument _ _ outer => closes_of_operator (fun _ => rfl) fun _ _ => ⟨_, rfl, (outer.closes _).1⟩
  | .key _ outer => closes_of_operator (fun _ => rfl) fun _ _ => ⟨_, rfl, (outer.closes _).1⟩
  | .operand _ _ outer => fun _ => ⟨outer.closes.ofFill fun _ => rfl, (outer.closes _).2⟩
  | .right _ _ outer => closes_of_operator (fun _ => rfl) fun _ => outer.closes.ofFill fun _ => rfl
  | .assigned _ outer => closes_of_operator (fun _ => rfl) fun _ => outer.closes.ofFill fun _ => rfl

end

/-- Braces with nothing between them close the scope they open. -/
theorem Scope.reads_block (inner : Scope) :
    Reads Finished (.block inner) (.mark .openBrace :: inner.closing) := by
  intro brace
  refine ⟨.statement none inner, rfl, ?_⟩
  simpa [Scope.append_nil] using inner.closes [] none

/-- An operand in a place lets everything around it be read to an end. -/
theorem Hole.reads_operand (hole : Hole) :
    Reads Finished (.operand hole) (someOperand :: hole.closing) :=
  fun loc => ⟨_, rfl, (hole.closes (.identifier "x" loc)).2⟩

/-- An import without its module. -/
theorem Scope.reads_import (scope : Scope) (loc : Location) (names : List String) :
    Reads Finished (.importFrom loc names scope) (.keyword .fromWord :: .string "" :: scope.closing) :=
  fun _ => ⟨_, rfl, fun _ => ⟨_, rfl, scope.closes.push (.imports names "" loc) none⟩⟩

/-- Whatever was read so far can be read to an end. -/
theorem reads_closing (r : Reading) : Reads Finished r r.closing := by
  cases r with
  | statement doc scope => simpa [Scope.append_nil, Reading.closing] using scope.closes [] doc
  | operand hole => exact hole.reads_operand
  | operator left hole => exact (hole.closes left).1
  | argument callee done hole => exact fun _ => ⟨_, rfl, (hole.closes _).1⟩
  | element loc done hole => exact fun _ => ⟨_, rfl, (hole.closes _).2⟩
  | key loc done hole => exact fun _ => ⟨_, rfl, (hole.closes _).2⟩
  | value loc done name nameLoc hole => exact fun _ => ⟨_, rfl, (hole.closes _).2⟩
  | memberName object hole => exact fun _ => ⟨_, rfl, (hole.closes _).1⟩
  | importHead loc scope => exact fun _ => ⟨_, rfl, scope.reads_import loc _⟩
  | importName loc names scope => exact fun _ => ⟨_, rfl, scope.reads_import loc names⟩
  | importNext loc names scope => exact fun _ => ⟨_, rfl, scope.reads_import loc names⟩
  | importFrom loc names scope => exact scope.reads_import loc names
  | importSource loc names scope =>
      exact fun _ => ⟨_, rfl, scope.closes.push (.imports names "" loc) none⟩
  | declaredName constant doc scope =>
      intro name
      refine ⟨.initial constant "x" doc name scope, rfl, fun assign => ⟨_, rfl, ?_⟩⟩
      exact (Hole.initial constant "x" doc name scope).reads_operand
  | initial constant name doc loc scope =>
      exact fun _ => ⟨_, rfl, (Hole.initial constant name doc loc scope).reads_operand⟩
  | functionHead doc loc scope =>
      exact fun _ => ⟨_, rfl, fun _ => ⟨_, rfl, Scope.reads_block _⟩⟩
  | parameters owner => exact fun _ => ⟨_, rfl, fun _ => ⟨_, rfl, Scope.reads_block _⟩⟩
  | parameterName owner names => exact fun _ => ⟨_, rfl, Scope.reads_block _⟩
  | parameterNext owner names => exact fun _ => ⟨_, rfl, Scope.reads_block _⟩
  | condition guard loc scope =>
      cases guard with
      | branch chain => exact fun _ => ⟨_, rfl, (Hole.branchCondition loc chain scope).reads_operand⟩
      | loop => exact fun _ => ⟨_, rfl, (Hole.loopCondition loc scope).reads_operand⟩
  | block inner => exact inner.reads_block
  | afterBranch last chain scope => exact scope.closes.afterBranch last chain
  | elseHead last chain scope =>
      have hblock := (Scope.otherwise last chain [] scope).reads_block
      exact hblock.of_step fun _ => rfl
  | result loc scope =>
      apply scope.closes.of_begin (s := .result none loc)
      rintro ⟨kind, here⟩ (rfl | rfl) <;> rfl
  | complete program => exact fun _ => ⟨_, rfl, program, rfl⟩

/-! ### The end of the text -/

/-- The end of the text ends the program, or does not fit. -/
def EndsHere (next : Except Complaint Reading) : Prop :=
  ∀ r, next = .ok r → Finished r

theorem endsHere_error (complaint : Complaint) : EndsHere (.error complaint) := by
  simp [EndsHere]

theorem Scope.endsHere_finish (scope : Scope) : EndsHere scope.finish := by
  cases scope with
  | program done loc =>
      intro r hr
      exact ⟨_, (Except.ok.inj hr).symm⟩
  | _ => exact endsHere_error _

theorem Hole.endsHere_fill (hole : Hole) (e : Expr) (loc : Location) :
    EndsHere (hole.fill e ⟨.eof, loc⟩) := by
  fun_induction Hole.fill e ⟨.eof, loc⟩ hole with
  | case1 | case2 | case3 => exact Scope.endsHere_finish _
  | case19 e op here outer ih => exact ih
  | case20 e left op outer ih => exact ih
  | case21 e target outer ih => exact ih
  -- a mark that closes or goes on with a list is not the end of the text
  | case4 | case6 | case8 | case10 | case11 | case14 | case15 | case17 => contradiction
  | _ => exact endsHere_error _

theorem Reading.endsHere_step (r : Reading) (loc : Location) : EndsHere (r.step ⟨.eof, loc⟩) := by
  cases r with
  | statement doc scope => exact scope.endsHere_finish
  | operator left hole => exact hole.endsHere_fill left loc
  | initial constant name doc here scope =>
      cases constant with
      | true => exact endsHere_error _
      | false => exact Scope.endsHere_finish _
  | afterBranch last chain scope => exact Scope.endsHere_finish _
  | result here scope => exact Scope.endsHere_finish _
  | complete program =>
      intro r hr
      exact ⟨program, (Except.ok.inj hr).symm⟩
  | condition guard here scope => cases guard <;> exact endsHere_error _
  | _ => exact endsHere_error _

/-! ### Runs -/

/-- Tokens that end with the mark of the end of the text and have no other such mark. -/
def Ended (tokens : List Token) : Prop :=
  ∃ init last, tokens = init ++ [last] ∧ last.kind = .eof ∧ ∀ t ∈ init, t.kind ≠ .eof

/-- A token that does not fit was reached by the tokens before it. -/
theorem exists_of_takeAll_error {r : Reading} {tokens : List Token} {m : Misfit}
    (h : r.takeAll tokens = .error m) :
    ∃ before behind r', tokens = before ++ m.token :: behind ∧ r.takeAll before = .ok r' ∧
      r'.take m.token = .error m := by
  induction tokens generalizing r with
  | nil => cases h
  | cons t ts ih =>
      rw [Reading.takeAll] at h
      cases htake : r.take t with
      | error misfit =>
          rw [htake] at h
          obtain rfl : misfit = m := Except.error.inj h
          obtain rfl := token_of_take htake
          exact ⟨[], ts, r, rfl, rfl, htake⟩
      | ok next =>
          rw [htake] at h
          obtain ⟨before, behind, r', hsplit, hbefore, hmisfit⟩ := ih h
          refine ⟨t :: before, behind, r', by rw [hsplit]; rfl, ?_, hmisfit⟩
          rw [Reading.takeAll, htake]
          exact hbefore

/-- What does not fit stops the reading, whatever follows. -/
theorem takeAll_misfit {r r' : Reading} {before : List Token} {t : Token} {m : Misfit}
    (hbefore : r.takeAll before = .ok r') (ht : r'.take t = .error m) (behind : List Token) :
    r.takeAll (before ++ t :: behind) = .error m := by
  rw [Reading.takeAll_append, hbefore]
  show r'.takeAll (t :: behind) = .error m
  rw [Reading.takeAll, ht]
  rfl

theorem programOf_of_misfit {tokens : List Token} {m : Misfit}
    (h : (Reading.start tokens).takeAll tokens = .error m) : programOf tokens = .error m := by
  rw [programOf, h]
  rfl

theorem programOf_of_finished {tokens : List Token} {p : Program}
    (h : (Reading.start tokens).takeAll tokens = .ok (.complete p)) : programOf tokens = .ok p := by
  rw [programOf, h]
  rfl

/-- Tokens of a whole text are read to the end of a program, or one of them does not fit. -/
theorem Ended.takeAll {tokens : List Token} (h : Ended tokens) {r r' : Reading}
    (hr : r.takeAll tokens = .ok r') : Finished r' := by
  obtain ⟨init, ⟨kind, loc⟩, rfl, rfl, -⟩ := h
  rw [Reading.takeAll_append] at hr
  cases hinit : r.takeAll init with
  | error m =>
      rw [hinit] at hr
      cases hr
  | ok s =>
      rw [hinit] at hr
      replace hr : s.takeAll [⟨.eof, loc⟩] = .ok r' := hr
      rw [Reading.takeAll, Reading.take] at hr
      cases hstep : s.step ⟨.eof, loc⟩ with
      | error complaint =>
          rw [hstep] at hr
          cases hr
      | ok next =>
          rw [hstep] at hr
          obtain rfl : next = r' := Except.ok.inj hr
          exact s.endsHere_step loc next hstep

theorem Ended.misfit {tokens : List Token} (h : Ended tokens) {m : Misfit}
    (hm : programOf tokens = .error m) : (Reading.start tokens).takeAll tokens = .error m := by
  cases hall : (Reading.start tokens).takeAll tokens with
  | error misfit =>
      rw [programOf_of_misfit hall] at hm
      rw [Except.error.inj hm]
  | ok r =>
      obtain ⟨p, rfl⟩ := h.takeAll hall
      rw [programOf_of_finished hall] at hm
      cases hm

theorem Ended.finished {tokens : List Token} (h : Ended tokens) {p : Program}
    (hp : programOf tokens = .ok p) :
    (Reading.start tokens).takeAll tokens = .ok (.complete p) := by
  cases hall : (Reading.start tokens).takeAll tokens with
  | error misfit =>
      rw [programOf_of_misfit hall] at hp
      cases hp
  | ok r =>
      obtain ⟨q, rfl⟩ := h.takeAll hall
      rw [programOf_of_finished hall] at hp
      rw [Except.ok.inj hp]

theorem ended_tokenize {source : String} {file : Option String} {tokens : List Token}
    (h : Token.tokenize source file = .ok tokens) : Ended tokens := by
  obtain ⟨init, hinit, hkinds⟩ := (Token.placed_tokenize h).ended
  exact ⟨init, _, hinit, rfl, hkinds⟩

/-- Where reading starts depends on the first token alone. -/
theorem start_congr {tokens others : List Token} (h : others.head? = tokens.head?) :
    Reading.start others = Reading.start tokens := by
  rw [Reading.start, Reading.start, h]

/-- A token that stands nowhere in particular. -/
def unplaced (kind : Kind) : Token := ⟨kind, default⟩

/-- Tokens that were taken and do not hold the end of the text are the beginning of a program. -/
theorem exists_completion {taken behind : List Token} {r : Reading}
    (h : (Reading.start (taken ++ behind)).takeAll taken = .ok r)
    (hkinds : ∀ t ∈ taken, t.kind ≠ .eof) :
    ∃ rest, rest ≠ [] ∧ Ended (taken ++ rest) ∧ ∃ p, programOf (taken ++ rest) = .ok p := by
  cases taken with
  | nil => exact ⟨[⟨.eof, default⟩], by simp, ⟨[], _, rfl, rfl, by simp⟩, _, rfl⟩
  | cons t ts =>
      obtain ⟨init, hinit, heof⟩ := r.endedKinds
      have hreads : Reads Finished r (((init ++ [Kind.eof]).map unplaced).map Token.kind) := by
        rw [List.map_map, ← hinit]
        simpa [Function.comp_def, unplaced] using reads_closing r
      obtain ⟨_, hall, p, rfl⟩ := hreads.takeAll
      refine ⟨(init ++ [Kind.eof]).map unplaced, by simp, ?_, p, ?_⟩
      · refine ⟨t :: ts ++ init.map unplaced, unplaced .eof, by simp, rfl, fun u hu => ?_⟩
        rcases List.mem_append.mp hu with hu | hu
        · exact hkinds u hu
        · obtain ⟨kind, hkind, rfl⟩ := List.mem_map.mp hu
          rintro rfl
          exact heof hkind
      · apply programOf_of_finished
        have hstart : Reading.start (t :: ts ++ (init ++ [Kind.eof]).map unplaced) =
            Reading.start (t :: ts ++ behind) := start_congr rfl
        rw [hstart, Reading.takeAll_append, h]
        exact hall

/-- The tokens up to one that does not fit decide the complaint, and those before it can be completed. -/
theorem Ended.stops_at_misfit {tokens : List Token} (h : Ended tokens) {m : Misfit}
    (hm : programOf tokens = .error m) :
    ∃ before behind, tokens = before ++ m.token :: behind ∧
      (∀ more, programOf (before ++ m.token :: more) = .error m) ∧
      ∃ rest, rest ≠ [] ∧ Ended (before ++ rest) ∧ ∃ p, programOf (before ++ rest) = .ok p := by
  obtain ⟨before, behind, r, hsplit, hbefore, hmisfit⟩ := exists_of_takeAll_error (h.misfit hm)
  refine ⟨before, behind, hsplit, fun more => ?_, ?_⟩
  · apply programOf_of_misfit
    have hstart : Reading.start (before ++ m.token :: more) = Reading.start tokens := by
      apply start_congr
      rw [hsplit]
      cases before <;> rfl
    rw [hstart]
    exact takeAll_misfit hbefore hmisfit more
  · rw [hsplit] at hbefore
    refine exists_completion hbefore fun t ht => ?_
    -- the end of the text is the last token, and the one that does not fit stands behind `before`
    obtain ⟨init, last, hlast, -, hinit⟩ := h
    have hbefore : before <+: tokens := ⟨m.token :: behind, hsplit.symm⟩
    have hlength : before.length ≤ init.length := by
      have htotal := congrArg List.length (hsplit.symm.trans hlast)
      simp at htotal
      omega
    have hfront := List.prefix_of_prefix_length_le hbefore ⟨[last], hlast.symm⟩ hlength
    exact hinit t (hfront.subset ht)

/-! ### What the reader of tokens reports -/

theorem readTokens_of_misfit {tokens : List Token} {m : Misfit} (h : programOf tokens = .error m)
    (quoted : String) (file : Option String) :
    readTokens tokens quoted file = .error (.fault (m.toFault quoted.toList file)) := by
  rw [readTokens, h]
  rfl

theorem readTokens_of_program {tokens : List Token} {p : Program} (h : programOf tokens = .ok p)
    (quoted : String) (file : Option String) : readTokens tokens quoted file = .ok p := by
  rw [readTokens, h]
  rfl

theorem exists_misfit {tokens : List Token} {quoted : String} {file : Option String} {failure : Failure}
    (h : readTokens tokens quoted file = .error failure) :
    ∃ m, programOf tokens = .error m ∧ failure = .fault (m.toFault quoted.toList file) := by
  cases hprogram : programOf tokens with
  | error m =>
      rw [readTokens_of_misfit hprogram] at h
      exact ⟨m, rfl, (Except.error.inj h).symm⟩
  | ok p =>
      rw [readTokens_of_program hprogram] at h
      cases h

/-- A list that agrees with another up to a place starts as that one does. -/
theorem eq_append_of_agree {α : Type} {before behind others : List α} {a : α}
    (h : ∀ i ≤ before.length, others[i]? = (before ++ a :: behind)[i]?) :
    ∃ more, others = before ++ a :: more := by
  have htake : others.take (before.length + 1) = (before ++ a :: behind).take (before.length + 1) := by
    apply List.ext_getElem?
    intro i
    rw [List.getElem?_take, List.getElem?_take]
    split
    · exact h i (by omega)
    · rfl
  refine ⟨others.drop (before.length + 1), ?_⟩
  calc others = others.take (before.length + 1) ++ others.drop (before.length + 1) :=
        (List.take_append_drop _ _).symm
    _ = before ++ a :: others.drop (before.length + 1) := by
        rw [htake, List.take_length_add_append]
        simp

/-- The tokens of a text that cannot be read as a program are at fault at one of them, at place `k`.  Every
list that agrees with them up to this token, ending with its only mark of the end of the text, is at fault
with the same message at the same location.  The tokens before a place can be completed to a program
exactly if the place is not behind `k`. -/
theorem read_stops_at_first_misfit {source : String} {file : Option String} {tokens : List Token}
    (htokens : Token.tokenize source file = .ok tokens) {quoted : String} {name : Option String}
    {f : Fault} (h : readTokens tokens quoted name = .error (.fault f)) :
    ∃ k t, tokens[k]? = some t ∧
      f.location = some { t.location with file := t.location.file.or name } ∧
      (∀ others text, Ended others → (∀ i ≤ k, others[i]? = tokens[i]?) →
        ∃ g, readTokens others text name = .error (.fault g) ∧
          g.text = f.text ∧ g.location = f.location) ∧
      ∀ j, (∃ rest p, rest ≠ [] ∧ Ended (tokens.take j ++ rest) ∧
        readTokens (tokens.take j ++ rest) quoted name = .ok p) ↔ j ≤ k := by
  obtain ⟨m, hm, hf⟩ := exists_misfit h
  obtain rfl := Failure.fault.inj hf
  obtain ⟨before, behind, hsplit, hsame, rest, hne, hended, p, hp⟩ :=
    (ended_tokenize htokens).stops_at_misfit hm
  have hagree : ∀ others, (∀ i ≤ before.length, others[i]? = tokens[i]?) →
      programOf others = .error m := by
    intro others hothers
    rw [hsplit] at hothers
    obtain ⟨more, rfl⟩ := eq_append_of_agree hothers
    exact hsame more
  refine ⟨before.length, m.token, by simp [hsplit], rfl, ?_, fun j => ⟨?_, ?_⟩⟩
  · intro others text _ hothers
    exact ⟨_, readTokens_of_misfit (hagree others hothers) text name, rfl, rfl⟩
  · rintro ⟨more, q, -, -, hq⟩
    apply Nat.le_of_not_lt
    intro hj
    have hfault : programOf (tokens.take j ++ more) = .error m := by
      apply hagree
      intro i hi
      have hlength : i < (tokens.take j).length := by
        have htotal : before.length < tokens.length := by simp [hsplit]
        rw [List.length_take]
        omega
      rw [List.getElem?_append_left hlength, List.getElem?_take, if_pos (by omega)]
    rw [readTokens_of_misfit hfault] at hq
    cases hq
  · intro hj
    -- what completes all tokens before `k` completes the first of them too
    have hcut : tokens.take j ++ (before.drop j ++ rest) = before ++ rest := by
      rw [hsplit, List.take_append_of_le_length hj, ← List.append_assoc, List.take_append_drop]
    refine ⟨before.drop j ++ rest, p, by simp [hne], ?_, ?_⟩
    · rwa [hcut]
    · rw [hcut]
      exact readTokens_of_program hp quoted name

/-- A declaration without a name: the complaint is about the assignment, `let` alone can be completed, and
with the assignment behind it nothing helps. -/
theorem read_stops_at_missing_name :
    ∃ tokens f, Token.tokenize "let = a" none = .ok tokens ∧
      readTokens tokens "let = a" none = .error (.fault f) ∧
      f.text = "Expected variable name, found '='" ∧
      ∃ k t, tokens[k]? = some t ∧
        f.location = some { t.location with file := t.location.file.or none } ∧
        (∃ rest p, Ended (tokens.take k ++ rest) ∧
          readTokens (tokens.take k ++ rest) "let = a" none = .ok p) ∧
        ¬∃ rest p, rest ≠ [] ∧ Ended (tokens.take (k + 1) ++ rest) ∧
          readTokens (tokens.take (k + 1) ++ rest) "let = a" none = .ok p := by
  obtain ⟨tokens, htokens, f, hfault, htext⟩ : ∃ tokens, Token.tokenize "let = a" none = .ok tokens ∧
      ∃ f, readTokens tokens "let = a" none = .error (.fault f) ∧
        f.text = "Expected variable name, found '='" := ⟨_, rfl, _, rfl, rfl⟩
  obtain ⟨k, t, ht, hloc, -, hplace⟩ := read_stops_at_first_misfit htokens hfault
  obtain ⟨rest, p, -, hended, hp⟩ := (hplace k).mpr (Nat.le_refl k)
  refine ⟨tokens, f, htokens, hfault, htext, k, t, ht, hloc, ⟨rest, p, hended, hp⟩, ?_⟩
  intro hmore
  have hle := (hplace (k + 1)).mp hmore
  omega

end ScriptLens.Syntax
