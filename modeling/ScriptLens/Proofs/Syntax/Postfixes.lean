import Mathlib.Data.List.Forall2
import ScriptLens.Proofs.Syntax.Operations

/-!
# Calls, indices and members of signed operands

A call, an index or a member is applied to the operand before it, and the unary operators in front of the operand
have taken it by then.  So `-x.y` is the member of a negation and not the negation of a member, although calls,
indices and members bind tighter than every binary operator.

Main statement: `signs_before_postfixes`.
-/

namespace ScriptLens.Syntax

/-! ### Postfix operations -/

/-- A call with arguments, an index or a member. -/
inductive Postfix where
  | call (arguments : List Expr)
  | index (key : Expr)
  | member (name : String) (location : Location)

/-- A postfix operation on an expression. -/
def Postfix.apply (e : Expr) : Postfix → Expr
  | .call arguments => .call e arguments e.location
  | .index key => .index e key e.location
  | .member name loc => .member e name loc e.location

/-- Postfix operations, one applied to the result of the other. -/
def applied (ops : List Postfix) (e : Expr) : Expr :=
  ops.foldl Postfix.apply e

/-- The name of a member that a token writes: reserved words are names there. -/
def memberName? : Kind → Option String
  | .identifier name => some name
  | .keyword word => some word.spelling
  | _ => none

/-- Tokens that write the arguments of a call, with the parenthesis that ends them.  A comma may stand behind the
last argument. -/
inductive WritesArguments : List Token → List Expr → Prop where
  | none (close : Location) : WritesArguments [⟨.mark .closeParen, close⟩] []
  | last {tokens : List Token} {e : Expr} (h : Writes tokens e) (close : Location) :
      WritesArguments (tokens ++ [⟨.mark .closeParen, close⟩]) [e]
  | more {tokens rest : List Token} {e : Expr} {es : List Expr} (h : Writes tokens e) (comma : Location)
      (hrest : WritesArguments rest es) :
      WritesArguments (tokens ++ ⟨.mark .comma, comma⟩ :: rest) (e :: es)

/-- Tokens that write a postfix operation. -/
inductive WritesPostfix : List Token → Postfix → Prop where
  | call (paren : Location) {tokens : List Token} {arguments : List Expr}
      (h : WritesArguments tokens arguments) :
      WritesPostfix (⟨.mark .openParen, paren⟩ :: tokens) (.call arguments)
  | index (bracket close : Location) {tokens : List Token} {key : Expr} (h : Writes tokens key) :
      WritesPostfix (⟨.mark .openBracket, bracket⟩ :: (tokens ++ [⟨.mark .closeBracket, close⟩])) (.index key)
  | member (dot : Location) {t : Token} {name : String} (h : memberName? t.kind = some name) :
      WritesPostfix [⟨.mark .dot, dot⟩, t] (.member name t.location)

/-! ### Reading postfix operations -/

/-- Some token starts an expression, and it does not end a list of arguments. -/
theorem Writes.exists_cons {tokens : List Token} {e : Expr} (h : Writes tokens e) :
    ∃ t ts, tokens = t :: ts ∧ t.kind ≠ .mark .closeParen := by
  obtain ⟨r, hall, hr⟩ := h (.statement default (.program [] none)) trivial
  cases tokens with
  | nil =>
      obtain rfl := Except.ok.inj hall
      cases hr ⟨.eof, default⟩ rfl
  | cons t ts =>
      refine ⟨t, ts, rfl, fun hkind => ?_⟩
      obtain ⟨s, hstep, -⟩ := Reading.exists_step hall
      rw [Reading.step, Hole.begin, hkind] at hstep
      cases hstep

/-- The tokens of an expression and a mark that ends it fill the place of an argument. -/
theorem Writes.takeAll_argument {tokens : List Token} {e : Expr} (h : Writes tokens e) {m : Mark}
    (hm : continuesExpr (.mark m) = false) {callee : Expr} {done : List Expr} {hole : Hole} {next : Reading}
    {loc : Location} (hfill : (Hole.argument callee done hole).fill e ⟨.mark m, loc⟩ = .ok next) (rest : List Token) :
    (Reading.argument callee done hole).takeAll (tokens ++ ⟨.mark m, loc⟩ :: rest) = next.takeAll rest := by
  obtain ⟨r, hall, hr⟩ := h (.argument callee done hole) trivial
  have hargument : (Reading.argument callee done hole).takeAll tokens = .ok r := by
    obtain ⟨t, ts, rfl, ht⟩ := h.exists_cons
    have hstep : (Reading.argument callee done hole).step t =
        (Reading.operand (.argument callee done hole)).step t := by
      simp [Reading.step, ht]
    rw [← hall, Reading.takeAll, Reading.takeAll, Reading.take, Reading.take, hstep]
  rw [Reading.takeAll_append, hargument]
  exact Reading.takeAll_of_step ((hr _ hm).trans hfill) rest

theorem WritesArguments.takeAll {tokens : List Token} {es : List Expr} (h : WritesArguments tokens es)
    (callee : Expr) (done : List Expr) (hole : Hole) :
    (Reading.argument callee done hole).takeAll tokens =
      .ok (.operator (.call callee (done ++ es) callee.location) hole) := by
  induction h generalizing done with
  | none close =>
      rw [List.append_nil]
      rfl
  | last h close => exact h.takeAll_argument rfl rfl []
  | @more tokens rest e es h comma hrest ih =>
      rw [h.takeAll_argument rfl rfl rest, ih, List.append_assoc]
      rfl

/-- A postfix operation is applied to the operand before it, wherever that stands. -/
theorem WritesPostfix.takeAll {tokens : List Token} {p : Postfix} (h : WritesPostfix tokens p) (left : Expr)
    (hole : Hole) :
    (Reading.operator left hole).takeAll tokens = .ok (.operator (p.apply left) hole) := by
  cases h with
  | call paren h => exact h.takeAll left [] hole
  | @index bracket close tokens key h =>
      obtain ⟨r, hall, hr⟩ := h (.key left hole) trivial
      have hclose : r.step ⟨.mark .closeBracket, close⟩ = .ok (.operator (.index left key left.location) hole) :=
        hr _ rfl
      have hopen : (Reading.operator left hole).step ⟨.mark .openBracket, bracket⟩ =
          .ok (.operand (.key left hole)) := rfl
      rw [Reading.takeAll_of_step hopen, Reading.takeAll_append, hall]
      exact Reading.takeAll_of_step hclose []
  | @member dot t name h =>
      have hdot : (Reading.operator left hole).step ⟨.mark .dot, dot⟩ = .ok (.memberName left hole) := rfl
      have hname : (Reading.memberName left hole).step t =
          .ok (.operator (.member left name t.location left.location) hole) := by
        obtain ⟨kind, loc⟩ := t
        cases kind <;> cases h <;> rfl
      rw [Reading.takeAll_of_step hdot]
      exact Reading.takeAll_of_step hname []

theorem takeAll_postfixes {groups : List (List Token)} {ops : List Postfix}
    (h : List.Forall₂ WritesPostfix groups ops) (left : Expr) (hole : Hole) :
    (Reading.operator left hole).takeAll groups.flatten = .ok (.operator (applied ops left) hole) := by
  induction h generalizing left with
  | nil => rfl
  | @cons tokens p groups ops hfirst hrest ih =>
      rw [List.flatten_cons, Reading.takeAll_append, hfirst.takeAll]
      exact ih (p.apply left)

/-- An operand with postfix operations behind it writes their application to the operand with its signs. -/
theorem Operand.writes_applied (o : Operand) {groups : List (List Token)} {ops : List Postfix}
    (h : List.Forall₂ WritesPostfix groups ops) : Writes (o.tokens ++ groups.flatten) (applied ops o.expr) := by
  intro hole hp
  refine ⟨.operator (applied ops o.expr) hole, ?_, fun t ht => Hole.extend_of_not_continuesExpr ht⟩
  rw [Reading.takeAll_append, o.takeAll_tokens, hp.afterOperand]
  exact takeAll_postfixes h o.expr hole

/-- Postfix operations are no unary operation. -/
theorem applied_ne_unary {ops : List Postfix} (h : ops ≠ []) (e operand : Expr) (op : UnaryOp)
    (loc : Option Location) : applied ops e ≠ .unary op operand loc := by
  rcases List.eq_nil_or_concat ops with rfl | ⟨front, last, rfl⟩
  · exact absurd rfl h
  · rw [applied, List.concat_eq_append, List.foldl_append]
    cases last <;> simp [Postfix.apply]

/-! ### Statements with signs and postfix operations -/

/-- Signs in front of an operand are applied before the calls, indices and members behind it.  With `x` alone these
give the chain of them on `x`; with signs they give the chain on the signed `x`, and never the chain on `x` with the
signs around it. -/
theorem signs_before_postfixes (signs : List Sign) (x : Primary) (place : Location)
    {groups : List (List Token)} {ops : List Postfix} (hops : List.Forall₂ WritesPostfix groups ops)
    (last : Location) (quoted : String) (file : Option String) :
    let operand : Token := ⟨x.kind, place⟩
    let start := (signTokens signs ++ [operand]).head?.map Token.location
    readTokens (operand :: groups.flatten ++ [⟨.eof, last⟩]) quoted file =
      .ok ⟨[.expression (applied ops (x.expr place)) place], place⟩ ∧
    readTokens (signTokens signs ++ operand :: groups.flatten ++ [⟨.eof, last⟩]) quoted file =
      .ok ⟨[.expression (applied ops (signed signs (x.expr place))) start], start⟩ ∧
    (signs ≠ [] → ops ≠ [] →
      applied ops (signed signs (x.expr place)) ≠ signed signs (applied ops (x.expr place))) := by
  intro operand start
  refine ⟨?_, ?_, fun hsigns hne => ?_⟩
  · have hwrites := Operand.writes_applied ⟨[], x, place⟩ hops
    exact hwrites.readTokens (opensExpr_primary x) last quoted file
  · have hwrites := Operand.writes_applied ⟨signs, x, place⟩ hops
    rw [Operand.tokens, List.append_assoc] at hwrites
    cases signs with
    | nil => exact hwrites.readTokens (opensExpr_primary x) last quoted file
    | cons sign signs => exact hwrites.readTokens (opensExpr_sign sign.op) last quoted file
  · cases signs with
    | nil => exact absurd rfl hsigns
    | cons sign signs => exact applied_ne_unary hne _ _ _ _

/-- A negated call with a member behind it that has the name of a reserved word: the call is a call of the
negation. -/
theorem signs_before_postfixes_call :
    let loc := Location.start none
    readTokens [⟨.mark .minus, loc⟩, ⟨.identifier "f", loc⟩, ⟨.mark .openParen, loc⟩, ⟨.identifier "a", loc⟩,
        ⟨.mark .closeParen, loc⟩, ⟨.mark .dot, loc⟩, ⟨.keyword .ifWord, loc⟩, ⟨.eof, loc⟩] "" none =
      .ok ⟨[.expression
        (.member (.call (.unary .negate (.identifier "f" loc) loc) [.identifier "a" loc] loc) "if" loc loc) loc],
        loc⟩ := by
  intro loc
  have hargument : Writes [⟨.identifier "a", loc⟩] (.identifier "a" loc) :=
    Formula.writes ⟨⟨[], .identifier "a", loc⟩, []⟩
  have hops : List.Forall₂ WritesPostfix
      [[⟨.mark .openParen, loc⟩, ⟨.identifier "a", loc⟩, ⟨.mark .closeParen, loc⟩],
        [⟨.mark .dot, loc⟩, ⟨.keyword .ifWord, loc⟩]]
      [.call [.identifier "a" loc], .member "if" loc] :=
    .cons (.call loc (.last hargument loc)) (.cons (.member loc rfl) .nil)
  exact (signs_before_postfixes [⟨.negate, loc⟩] (.identifier "f") loc hops loc "" none).2.1

/-- The text `-x.y` is the member `y` of the negation of `x`, and not the negation of the member `y` of `x`. -/
theorem read_negated_member :
    read "-x.y" none =
      .ok ⟨[.expression (.member (.unary .negate (.identifier "x" (some ⟨1, 2, 1, none⟩)) (some ⟨1, 1, 0, none⟩))
        "y" (some ⟨1, 4, 3, none⟩) (some ⟨1, 1, 0, none⟩)) (some ⟨1, 1, 0, none⟩)], some ⟨1, 1, 0, none⟩⟩ ∧
    read "-x.y" none ≠
      .ok ⟨[.expression (.unary .negate (.member (.identifier "x" (some ⟨1, 2, 1, none⟩))
        "y" (some ⟨1, 4, 3, none⟩) (some ⟨1, 2, 1, none⟩)) (some ⟨1, 1, 0, none⟩))
          (some ⟨1, 1, 0, none⟩)], some ⟨1, 1, 0, none⟩⟩ := by
  have hread : read "-x.y" none = .ok ⟨[.expression (.member (.unary .negate
      (.identifier "x" (some ⟨1, 2, 1, none⟩)) (some ⟨1, 1, 0, none⟩)) "y" (some ⟨1, 4, 3, none⟩)
        (some ⟨1, 1, 0, none⟩)) (some ⟨1, 1, 0, none⟩)], some ⟨1, 1, 0, none⟩⟩ := rfl
  refine ⟨hread, ?_⟩
  rw [hread]
  intro h
  simp at h

end ScriptLens.Syntax
