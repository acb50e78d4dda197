import ScriptLens.Proofs.Syntax.CorrectPrefix
import ScriptLens.Proofs.Syntax.SilentTokens

/-!
# Operations bind by the precedence of their operators

Operands with binary operators between them are read from left to right.  The operations that still wait for their
right operand are a stack, on which each binds tighter than the one below it.  An operator first completes all that
binds at least as tightly as it does.  So the tree that is read has the operands and operators in their order, and it
is the only tree of them in which no operation has a looser one on its left, or one that is not tighter on its right.

Main statement: `readTokens_formula`.
-/

namespace ScriptLens

/-! ### Trees of binary operations -/

/-- The operator of a binary operation. -/
def Expr.operator? : Expr → Option BinaryOp
  | .binary op _ _ _ => some op
  | _ => none

/-- An operand, or an operator between two operands. -/
inductive Item where
  | operand (e : Expr)
  | operator (op : BinaryOp)

/-- The operands of binary operations and the operators between them, from left to right. -/
def Expr.inOrder : Expr → List Item
  | .binary op left right _ => left.inOrder ++ .operator op :: right.inOrder
  | e => [.operand e]

/-- Every operation on the left of an operation binds at least as tightly, and every one on its right binds
tighter. -/
def Expr.Climbs : Expr → Prop
  | .binary op left right _ =>
      (∀ inner ∈ left.operator?, op.precedence ≤ inner.precedence) ∧
      (∀ inner ∈ right.operator?, op.precedence < inner.precedence) ∧ left.Climbs ∧ right.Climbs
  | _ => True

namespace Expr

theorem inOrder_of_operator? {e : Expr} (h : e.operator? = none) : e.inOrder = [.operand e] := by
  cases e with
  | binary op left right loc => cases h
  | _ => simp [inOrder]

theorem climbs_of_operator? {e : Expr} (h : e.operator? = none) : e.Climbs := by
  cases e with
  | binary op left right loc => cases h
  | _ => simp [Climbs]

/-- Operators anywhere in a tree bind at least as tightly as the outermost one. -/
theorem Climbs.le_of_mem {e : Expr} (h : e.Climbs) {p : Nat}
    (houter : ∀ op ∈ e.operator?, p ≤ op.precedence) {op : BinaryOp} (hop : .operator op ∈ e.inOrder) :
    p ≤ op.precedence := by
  fun_induction inOrder e with
  | case1 outer left right loc ihl ihr =>
      obtain ⟨hleft, hright, hl, hr⟩ := h
      have hp : p ≤ outer.precedence := houter outer rfl
      simp only [List.mem_append, List.mem_cons] at hop
      rcases hop with hop | hop | hop
      · exact ihl hl (fun inner hinner => Nat.le_trans hp (hleft inner hinner)) hop
      · cases hop
        exact hp
      · exact ihr hr (fun inner hinner => Nat.le_trans hp (Nat.le_of_lt (hright inner hinner))) hop
  | case2 e hleaf => simp at hop

/-- Of two operations over the same operands and operators, the operator of one cannot stand on the left of the
operator of the other. -/
theorem Climbs.not_before {op op' : BinaryOp} {left right left' right' : Expr} {loc loc' : Option Location}
    (h : (binary op left right loc).Climbs) (h' : (binary op' left' right' loc').Climbs) {between : List Item}
    (hleft : left'.inOrder = left.inOrder ++ .operator op :: between)
    (hright : right.inOrder = between ++ .operator op' :: right'.inOrder) : False := by
  obtain ⟨-, htighter, -, hr⟩ := h
  obtain ⟨hlooser, -, hl', -⟩ := h'
  have hle : op'.precedence ≤ op.precedence := hl'.le_of_mem hlooser (by simp [hleft])
  have hlt : op.precedence + 1 ≤ op'.precedence := hr.le_of_mem htighter (by simp [hright])
  omega

/-- The operands and operators in their order determine a tree in which operations bind by precedence. -/
theorem Climbs.unique {e e' : Expr} (h : e.Climbs) (h' : e'.Climbs) (hsame : e.inOrder = e'.inOrder) :
    e.unlocated = e'.unlocated := by
  fun_induction inOrder e generalizing e' with
  | case1 op left right loc ihl ihr =>
      cases e' with
      | binary op' left' right' loc' =>
          rw [inOrder] at hsame
          rcases List.append_eq_append_iff.mp hsame with ⟨as, hleft, hright⟩ | ⟨as, hleft, hright⟩
          · cases as with
            | nil =>
                obtain ⟨hop, hr⟩ := List.cons.inj hright
                cases hop
                simp only [unlocated]
                rw [ihl h.2.2.1 h'.2.2.1 (by simpa using hleft.symm), ihr h.2.2.2 h'.2.2.2 hr]
            | cons item between =>
                obtain ⟨rfl, hr⟩ := List.cons.inj hright
                exact (h.not_before h' hleft hr).elim
          · cases as with
            | nil =>
                obtain ⟨hop, hr⟩ := List.cons.inj hright
                cases hop
                simp only [unlocated]
                rw [ihl h.2.2.1 h'.2.2.1 (by simpa using hleft), ihr h.2.2.2 h'.2.2.2 hr.symm]
            | cons item between =>
                obtain ⟨rfl, hr⟩ := List.cons.inj hright
                exact (h'.not_before h hleft hr).elim
      | _ =>
          have hmem : Item.operator op ∈ left.inOrder ++ .operator op :: right.inOrder := by simp
          rw [hsame] at hmem
          simp [inOrder] at hmem
  | case2 e hleaf =>
      cases e' with
      | binary op' left' right' loc' =>
          have hmem : Item.operator op' ∈ (binary op' left' right' loc').inOrder := by simp [inOrder]
          rw [← hsame] at hmem
          simp at hmem
      | _ =>
          simp only [inOrder, List.cons.injEq, Item.operand.injEq, and_true] at hsame
          rw [hsame]

end Expr

namespace Syntax

/-! ### Operands -/

/-- A literal or a name. -/
inductive Primary where
  | number (value : Binary64)
  | string (value : String)
  | identifier (name : String)
deriving DecidableEq, Repr

/-- The kind of token that writes a literal or a name. -/
def Primary.kind : Primary → Kind
  | .number value => .number value
  | .string value => .string value
  | .identifier name => .identifier name

/-- A literal or a name as an expression. -/
def Primary.expr (loc : Location) : Primary → Expr
  | .number value => .number value loc
  | .string value => .string value loc
  | .identifier name => .identifier name loc

/-- A unary operator where it is written. -/
structure Sign where
  op : UnaryOp
  location : Location
deriving DecidableEq, Repr

/-- The tokens of unary operators. -/
def signTokens (signs : List Sign) : List Token :=
  signs.map fun sign => ⟨.mark sign.op.mark, sign.location⟩

/-- An expression with unary operators in front of it. -/
def signed (signs : List Sign) (e : Expr) : Expr :=
  signs.foldr (fun sign e => .unary sign.op e sign.location) e

/-- A literal or a name with unary operators in front of it. -/
structure Operand where
  signs : List Sign
  primary : Primary
  location : Location
deriving DecidableEq, Repr

/-- The tokens of an operand. -/
def Operand.tokens (o : Operand) : List Token :=
  signTokens o.signs ++ [⟨o.primary.kind, o.location⟩]

/-- An operand as an expression. -/
def Operand.expr (o : Operand) : Expr :=
  signed o.signs (o.primary.expr o.location)

/-- A step that is taken first. -/
theorem Reading.takeAll_of_step {r s : Reading} {t : Token} (h : r.step t = .ok s) (ts : List Token) :
    r.takeAll (t :: ts) = s.takeAll ts := by
  rw [Reading.takeAll, Reading.take, h]
  rfl

/-- Unary operators wait for what follows them. -/
theorem takeAll_signs (signs : List Sign) (hole : Hole) :
    ∃ inner, (Reading.operand hole).takeAll (signTokens signs) = .ok (.operand inner) ∧
      ∀ e, afterOperand e inner = afterOperand (signed signs e) hole := by
  induction signs generalizing hole with
  | nil => exact ⟨hole, rfl, fun e => rfl⟩
  | cons sign signs ih =>
      obtain ⟨inner, hall, hafter⟩ := ih (.operand sign.op sign.location hole)
      refine ⟨inner, ?_, fun e => ?_⟩
      · have hstep : (Reading.operand hole).step ⟨.mark sign.op.mark, sign.location⟩ =
            .ok (.operand (.operand sign.op sign.location hole)) := by
          obtain ⟨op, loc⟩ := sign
          cases op <;> rfl
        exact (Reading.takeAll_of_step hstep _).trans hall
      · exact hafter e

/-- An operand is read as itself. -/
theorem Operand.takeAll_tokens (o : Operand) (hole : Hole) :
    (Reading.operand hole).takeAll o.tokens = .ok (afterOperand o.expr hole) := by
  obtain ⟨inner, hsigns, hafter⟩ := takeAll_signs o.signs hole
  have hstep : (Reading.operand inner).step ⟨o.primary.kind, o.location⟩ =
      .ok (afterOperand (o.primary.expr o.location) inner) := by
    cases hprimary : o.primary <;> rfl
  rw [tokens, Reading.takeAll_append, hsigns]
  calc (Reading.operand inner).takeAll [⟨o.primary.kind, o.location⟩]
      = .ok (afterOperand (o.primary.expr o.location) inner) := Reading.takeAll_of_step hstep []
    _ = .ok (afterOperand o.expr hole) := by rw [hafter]; rfl

theorem Operand.operator?_expr (o : Operand) : o.expr.operator? = none := by
  obtain ⟨signs, primary, loc⟩ := o
  cases signs with
  | nil => cases primary <;> rfl
  | cons sign signs => rfl

/-! ### Operations that wait for their right operand -/

/-- A left operand and the operator behind it. -/
structure Pending where
  left : Expr
  op : BinaryOp

/-- A place with pending operations around it, the innermost first. -/
def Hole.over (base : Hole) (pending : List Pending) : Hole :=
  pending.foldr (fun p outer => .right p.left p.op outer) base

/-- Complete the innermost operations that bind at least as tightly as `precedence`. -/
def complete (precedence : Nat) (e : Expr) : List Pending → Expr × List Pending
  | [] => (e, [])
  | p :: rest =>
      if precedence ≤ p.op.precedence then complete precedence (.binary p.op p.left e p.left.location) rest
      else (e, p :: rest)

theorem absorb_over {base : Hole} (hbase : base.Plain) (precedence : Nat) (e : Expr) (pending : List Pending) :
    absorb precedence e (base.over pending) =
      ((complete precedence e pending).1, base.over (complete precedence e pending).2) := by
  induction pending generalizing e with
  | nil => exact hbase.absorb precedence e
  | cons p rest ih =>
      have hover : base.over (p :: rest) = .right p.left p.op (base.over rest) := rfl
      rw [hover, absorb, complete]
      split
      · exact ih _
      · rfl

/-- A place is filled with all pending operations completed. -/
theorem fill_over (base : Hole) (e : Expr) (t : Token) (pending : List Pending) :
    (base.over pending).fill e t = base.fill (complete 0 e pending).1 t := by
  induction pending generalizing e with
  | nil => rfl
  | cons p rest ih => exact ih _

/-- The operands and operators of pending operations, from left to right. -/
def itemsOf : List Pending → List Item
  | [] => []
  | p :: rest => itemsOf rest ++ p.left.inOrder ++ [.operator p.op]

/-- Pending operations bind tighter the further inside they stand, and their left operands bind by precedence. -/
def Rising : List Pending → Prop
  | [] => True
  | p :: rest =>
      p.left.Climbs ∧ (∀ inner ∈ p.left.operator?, p.op.precedence ≤ inner.precedence) ∧
      (∀ q ∈ rest, q.op.precedence < p.op.precedence) ∧ Rising rest

/-- Completed operations bind by precedence, and looser ones stay pending. -/
theorem Rising.complete {pending : List Pending} (h : Rising pending) {precedence : Nat} {e : Expr}
    (he : e.Climbs) (htight : ∀ op ∈ e.operator?, precedence ≤ op.precedence)
    (hinner : ∀ op ∈ e.operator?, ∀ p ∈ pending, p.op.precedence < op.precedence) :
    (complete precedence e pending).1.Climbs ∧
    (∀ op ∈ (complete precedence e pending).1.operator?, precedence ≤ op.precedence) ∧
    Rising (complete precedence e pending).2 ∧
    ∀ p ∈ (complete precedence e pending).2, p.op.precedence < precedence := by
  fun_induction Syntax.complete precedence e pending with
  | case1 e => exact ⟨he, htight, trivial, by simp⟩
  | case2 e p rest htake ih =>
      obtain ⟨hleft, hlooser, houter, hrest⟩ := h
      apply ih hrest
      · exact ⟨hlooser, fun op hop => hinner op hop p List.mem_cons_self, hleft, he⟩
      · intro op hop
        obtain rfl := Option.some.inj hop
        exact htake
      · intro op hop q hq
        obtain rfl := Option.some.inj hop
        exact houter q hq
  | case3 e p rest hstop =>
      refine ⟨he, htight, h, fun q hq => ?_⟩
      rcases List.mem_cons.mp hq with rfl | hq
      · exact Nat.lt_of_not_le hstop
      · exact Nat.lt_trans (h.2.2.1 q hq) (Nat.lt_of_not_le hstop)

/-- Completing operations leaves all operands and operators in their order. -/
theorem inOrder_complete (precedence : Nat) (e : Expr) (pending : List Pending) :
    itemsOf (complete precedence e pending).2 ++ (complete precedence e pending).1.inOrder =
      itemsOf pending ++ e.inOrder := by
  fun_induction Syntax.complete precedence e pending with
  | case1 e => rfl
  | case2 e p rest htake ih =>
      rw [ih]
      simp [itemsOf, Expr.inOrder]
  | case3 e p rest hstop => rfl

theorem complete_zero (e : Expr) (pending : List Pending) : (complete 0 e pending).2 = [] := by
  induction pending generalizing e with
  | nil => rfl
  | cons p rest ih => exact ih _

/-! ### Operands with operators between them -/

/-- A binary operator and the operand behind it. -/
structure Link where
  op : BinaryOp
  location : Location
  operand : Operand
deriving DecidableEq, Repr

/-- Operands with binary operators between them. -/
structure Formula where
  first : Operand
  links : List Link
deriving DecidableEq, Repr

/-- The tokens of an operator and the operand behind it. -/
def Link.tokens (l : Link) : List Token :=
  ⟨.mark l.op.mark, l.location⟩ :: l.operand.tokens

/-- The tokens of a formula. -/
def Formula.tokens (f : Formula) : List Token :=
  f.first.tokens ++ f.links.flatMap Link.tokens

/-- The operator and the operand behind it as parts of a tree. -/
def Link.items (l : Link) : List Item :=
  [.operator l.op, .operand l.operand.expr]

/-- The operands and operators of a formula. -/
def Formula.items (f : Formula) : List Item :=
  .operand f.first.expr :: f.links.flatMap Link.items

/-- The last operand that was read, and the operations that are pending before it. -/
structure Progress where
  last : Expr
  pending : List Pending

/-- The operands and operators that were read. -/
def Progress.items (s : Progress) : List Item :=
  itemsOf s.pending ++ s.last.inOrder

/-- An operator completes what binds at least as tightly and is pending then. -/
def Progress.push (s : Progress) (l : Link) : Progress where
  last := l.operand.expr
  pending :=
    ⟨(complete l.op.precedence s.last s.pending).1, l.op⟩ :: (complete l.op.precedence s.last s.pending).2

/-- The operations of a formula that are pending at its end. -/
def Formula.progress (f : Formula) : Progress :=
  f.links.foldl Progress.push ⟨f.first.expr, []⟩

/-- The tree of a formula. -/
def Formula.tree (f : Formula) : Expr :=
  (complete 0 f.progress.last f.progress.pending).1

/-- The last operand is no operation, and the pending operations bind by precedence. -/
structure Progress.Sound (s : Progress) : Prop where
  last : s.last.operator? = none
  rising : Rising s.pending

theorem Progress.Sound.complete {s : Progress} (h : s.Sound) (precedence : Nat) :
    (complete precedence s.last s.pending).1.Climbs ∧
    (∀ op ∈ (complete precedence s.last s.pending).1.operator?, precedence ≤ op.precedence) ∧
    Rising (complete precedence s.last s.pending).2 ∧
    ∀ p ∈ (complete precedence s.last s.pending).2, p.op.precedence < precedence := by
  have hleaf : ∀ op, op ∉ s.last.operator? := by simp [h.last]
  apply h.rising.complete (Expr.climbs_of_operator? h.last)
  · exact fun op hop => absurd hop (hleaf op)
  · exact fun op hop => absurd hop (hleaf op)

theorem Progress.Sound.push {s : Progress} (h : s.Sound) (l : Link) : (s.push l).Sound where
  last := l.operand.operator?_expr
  rising := by
    obtain ⟨hclimbs, htight, hrising, hlooser⟩ := h.complete l.op.precedence
    exact ⟨hclimbs, htight, hlooser, hrising⟩

theorem Progress.items_push (s : Progress) (l : Link) : (s.push l).items = s.items ++ l.items := by
  have hcomplete := inOrder_complete l.op.precedence s.last s.pending
  simp only [items, push, itemsOf, Link.items, Expr.inOrder_of_operator? l.operand.operator?_expr, hcomplete]
  simp

theorem Progress.foldl_push (links : List Link) {s : Progress} (h : s.Sound) :
    (links.foldl push s).Sound ∧ (links.foldl push s).items = s.items ++ links.flatMap Link.items := by
  induction links generalizing s with
  | nil => exact ⟨h, by simp⟩
  | cons l links ih =>
      obtain ⟨hsound, hitems⟩ := ih (h.push l)
      refine ⟨hsound, ?_⟩
      rw [List.foldl_cons, hitems, items_push, List.flatMap_cons, List.append_assoc]

theorem Formula.sound_progress (f : Formula) : f.progress.Sound ∧ f.progress.items = f.items := by
  have hfirst : Progress.Sound ⟨f.first.expr, []⟩ := ⟨f.first.operator?_expr, trivial⟩
  obtain ⟨hsound, hitems⟩ := Progress.foldl_push f.links hfirst
  refine ⟨hsound, hitems.trans ?_⟩
  simp [Progress.items, itemsOf, items, Expr.inOrder_of_operator? f.first.operator?_expr]

theorem Formula.climbs_tree (f : Formula) : f.tree.Climbs :=
  (f.sound_progress.1.complete 0).1

theorem Formula.inOrder_tree (f : Formula) : f.tree.inOrder = f.items := by
  have hcomplete := inOrder_complete 0 f.progress.last f.progress.pending
  rw [complete_zero] at hcomplete
  exact hcomplete.trans f.sound_progress.2

/-! ### Reading a formula -/

theorem afterOperand_over {base : Hole} (hbase : base.Plain) (e : Expr) (pending : List Pending) :
    afterOperand e (base.over pending) = .operator e (base.over pending) := by
  cases pending with
  | nil => exact hbase.afterOperand e
  | cons p rest => rfl

/-- A binary operator takes what it completes as its left operand. -/
theorem step_binary (op : BinaryOp) (loc : Location) (e : Expr) (hole : Hole) :
    (Reading.operator e hole).step ⟨.mark op.mark, loc⟩ =
      .ok (.operand (.right (absorb op.precedence e hole).1 op (absorb op.precedence e hole).2)) := by
  cases op <;> rfl

theorem takeAll_link {base : Hole} (hbase : base.Plain) (s : Progress) (l : Link) :
    (Reading.operator s.last (base.over s.pending)).takeAll l.tokens =
      .ok (.operator (s.push l).last (base.over (s.push l).pending)) := by
  have hstep := step_binary l.op l.location s.last (base.over s.pending)
  rw [absorb_over hbase] at hstep
  calc (Reading.operator s.last (base.over s.pending)).takeAll l.tokens
      = (Reading.operand (base.over (s.push l).pending)).takeAll l.operand.tokens :=
        Reading.takeAll_of_step hstep _
    _ = .ok (afterOperand l.operand.expr (base.over (s.push l).pending)) := l.operand.takeAll_tokens _
    _ = .ok (.operator (s.push l).last (base.over (s.push l).pending)) := by
        rw [afterOperand_over hbase]
        rfl

theorem takeAll_links {base : Hole} (hbase : base.Plain) (s : Progress) (links : List Link) :
    (Reading.operator s.last (base.over s.pending)).takeAll (links.flatMap Link.tokens) =
      .ok (.operator (links.foldl Progress.push s).last (base.over (links.foldl Progress.push s).pending)) := by
  induction links generalizing s with
  | nil => rfl
  | cons l links ih =>
      rw [List.flatMap_cons, Reading.takeAll_append, takeAll_link hbase]
      exact ih (s.push l)

theorem Formula.takeAll_tokens (f : Formula) {base : Hole} (hbase : base.Plain) :
    (Reading.operand base).takeAll f.tokens =
      .ok (.operator f.progress.last (base.over f.progress.pending)) := by
  rw [tokens, Reading.takeAll_append, f.first.takeAll_tokens, hbase.afterOperand]
  exact takeAll_links hbase ⟨f.first.expr, []⟩ f.links

/-! ### Tokens that write an expression -/

/-- Tokens write an expression if, wherever an expression can stand, they are read, and a token behind them that
does not go on with the expression finds it in its place. -/
def Writes (tokens : List Token) (e : Expr) : Prop :=
  ∀ hole : Hole, hole.Plain → ∃ r, (Reading.operand hole).takeAll tokens = .ok r ∧
    ∀ t : Token, continuesExpr t.kind = false → r.step t = hole.fill e t

/-- A formula writes its tree. -/
theorem Formula.writes (f : Formula) : Writes f.tokens f.tree := by
  intro hole hp
  refine ⟨_, f.takeAll_tokens hp, fun t ht => ?_⟩
  calc (hole.over f.progress.pending).extend f.progress.last t
      = (hole.over f.progress.pending).fill f.progress.last t := Hole.extend_of_not_continuesExpr ht
    _ = hole.fill f.tree t := fill_over hole f.progress.last t f.progress.pending

/-- A name that is assigned to, and the mark behind it. -/
structure Target where
  name : String
  location : Location
  mark : Location
deriving DecidableEq, Repr

/-- The tokens of names that are assigned to. -/
def targetTokens (targets : List Target) : List Token :=
  targets.flatMap fun target =>
    [⟨.identifier target.name, target.location⟩, ⟨.mark .assign, target.mark⟩]

/-- An expression that is assigned to the last name, the assignment to the name before it, and so on. -/
def assigned (targets : List Target) (e : Expr) : Expr :=
  targets.foldr
    (fun target value => .assign (.identifier target.name target.location) value target.location) e

theorem Writes.assigned {tokens : List Token} {e : Expr} (h : Writes tokens e) (targets : List Target) :
    Writes (targetTokens targets ++ tokens) (assigned targets e) := by
  induction targets with
  | nil => exact h
  | cons target targets ih =>
      intro hole hp
      obtain ⟨r, hall, hr⟩ := ih (.assigned (.identifier target.name target.location) hole) trivial
      have hname : (Reading.operand hole).step ⟨.identifier target.name, target.location⟩ =
          .ok (.operator (.identifier target.name target.location) hole) := by
        rw [← hp.afterOperand]
        rfl
      have hmark : (Reading.operator (.identifier target.name target.location) hole).step
          ⟨.mark .assign, target.mark⟩ =
            .ok (.operand (.assigned (.identifier target.name target.location) hole)) := by
        simp [Reading.step, Hole.extend, hp.absorb, Expr.isTarget]
      refine ⟨r, ?_, fun t ht => hr t ht⟩
      rw [← hall]
      exact (Reading.takeAll_of_step hname _).trans (Reading.takeAll_of_step hmark _)

/-! ### Expressions that are statements -/

/-- Kinds of token that start a statement in the way in which they start an expression. -/
def opensExpr : Kind → Bool
  | .number _ | .string _ | .identifier _ | .mark .minus | .mark .bang => true
  | _ => false

theorem step_statement {t : Token} (h : opensExpr t.kind = true) (scope : Scope) :
    (Reading.statement none scope).step t = (Reading.operand (.statement t.location scope)).step t := by
  obtain ⟨kind, loc⟩ := t
  cases kind with
  | number value => rfl
  | string value => rfl
  | identifier name => rfl
  | mark m => cases m <;> first | rfl | cases h
  | _ => cases h

/-- Tokens that write an expression are a program of one statement. -/
theorem Writes.readTokens {t : Token} {ts : List Token} {e : Expr} (h : Writes (t :: ts) e)
    (ht : opensExpr t.kind = true) (last : Location) (quoted : String) (file : Option String) :
    readTokens (t :: ts ++ [⟨.eof, last⟩]) quoted file =
      .ok ⟨[.expression e t.location], t.location⟩ := by
  apply readTokens_of_program
  apply programOf_of_finished
  have hstart : Reading.start (t :: ts ++ [⟨.eof, last⟩]) = .statement none (.program [] t.location) := rfl
  obtain ⟨r, hall, hr⟩ := h (.statement t.location (.program [] t.location)) trivial
  have hstatement : (Reading.statement none (.program [] t.location)).takeAll (t :: ts) = .ok r := by
    rw [← hall, Reading.takeAll, Reading.takeAll, Reading.take, Reading.take, step_statement ht]
  have hlast : r.step ⟨.eof, last⟩ = .ok (.complete ⟨[.expression e t.location], t.location⟩) := hr _ rfl
  rw [hstart, Reading.takeAll_append, hstatement]
  exact Reading.takeAll_of_step hlast []

theorem opensExpr_sign (op : UnaryOp) : opensExpr (.mark op.mark) = true := by
  cases op <;> rfl

theorem opensExpr_primary (p : Primary) : opensExpr p.kind = true := by
  cases p <;> rfl

/-- A formula that is assigned to names starts as an expression does. -/
theorem exists_opening (targets : List Target) (f : Formula) :
    ∃ t ts, targetTokens targets ++ f.tokens = t :: ts ∧ opensExpr t.kind = true := by
  cases targets with
  | cons target targets => exact ⟨_, _, rfl, rfl⟩
  | nil =>
      obtain ⟨⟨signs, primary, loc⟩, links⟩ := f
      cases signs with
      | nil => exact ⟨_, _, rfl, opensExpr_primary primary⟩
      | cons sign signs => exact ⟨_, _, rfl, opensExpr_sign sign.op⟩

/-- A formula that is assigned to any number of names is read as one statement, in which the assignments are
nested to the right around a tree of operations.  That tree has the operands, each with its unary operators, and the
binary operators of the formula in their order, and its operations bind by precedence.  No other tree does both. -/
theorem readTokens_formula (targets : List Target) (f : Formula) (last : Location) (quoted : String)
    (file : Option String) :
    let tokens := targetTokens targets ++ f.tokens
    let start := tokens.head?.map Token.location
    ∃ e, readTokens (tokens ++ [⟨.eof, last⟩]) quoted file =
        .ok ⟨[.expression (assigned targets e) start], start⟩ ∧
      e.inOrder = f.items ∧ e.Climbs ∧
      ∀ e' : Expr, e'.inOrder = f.items → e'.Climbs → e'.unlocated = e.unlocated := by
  intro tokens start
  have hwrites : Writes tokens (assigned targets f.tree) := f.writes.assigned targets
  obtain ⟨t, ts, htokens, ht⟩ := exists_opening targets f
  refine ⟨f.tree, ?_, f.inOrder_tree, f.climbs_tree, fun e' hitems hclimbs => ?_⟩
  · have hstart : start = some t.location := by
      simp only [start, tokens, htokens, List.head?_cons, Option.map_some]
    rw [hstart]
    simp only [tokens, htokens] at hwrites ⊢
    exact hwrites.readTokens ht last quoted file
  · exact hclimbs.unique f.climbs_tree (hitems.trans f.inOrder_tree.symm)

end Syntax

end ScriptLens
