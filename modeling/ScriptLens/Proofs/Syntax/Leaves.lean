import Mathlib.Data.List.Forall2
import ScriptLens.Proofs.Syntax.CorrectPrefix
import ScriptLens.Proofs.Syntax.Recent

/-!
# The tokens that a tree keeps

A literal, a name, an operator and the name of a member are kept in the tree of a program, each as a leaf of its own.
One token adds at most one leaf to what was read before, at the end, and the leaf has the value of the token and its
location.  Only a name that an import already has is not kept again.

Main statements: `Reading.keeps_step` and `Reading.keeps_takeAll`.
-/

namespace ScriptLens

/-! ### Leaves -/

/-- A part of a tree that one token writes.  Names in lists and operators between operands have no location of their
own. -/
inductive Leaf where
  | number (value : Binary64) (location : Option Location)
  | string (value : String) (location : Option Location)
  /-- A name that is used or declared. -/
  | name (name : String) (location : Option Location)
  /-- The key of an entry of an object. -/
  | key (key : String) (location : Option Location)
  | member (name : String) (location : Option Location)
  /-- A parameter, or a name that is imported. -/
  | listed (name : String)
  /-- The module of an import. -/
  | source (path : String)
  | unary (op : UnaryOp) (location : Option Location)
  | binary (op : BinaryOp)
  | assign
  /-- The word that an import starts with. -/
  | importWord (location : Option Location)

namespace Leaf

/-- The location that a tree has for a leaf, if it has one for the leaf alone. -/
def location? : Leaf → Option (Option Location)
  | .number _ loc => some loc
  | .string _ loc => some loc
  | .name _ loc => some loc
  | .key _ loc => some loc
  | .member _ loc => some loc
  | .unary _ loc => some loc
  | .importWord loc => some loc
  | .listed _ | .source _ | .binary _ | .assign => none

/-- The kinds of token that write a leaf.  A key may be a string, and the name of a member a reserved word. -/
def HasKind : Leaf → Kind → Prop
  | .number n _ => (· = .number n)
  | .string s _ => (· = .string s)
  | .name n _ => (· = .identifier n)
  | .key k _ => fun kind => kind = .identifier k ∨ kind = .string k
  | .member n _ => fun kind => kind = .identifier n ∨ ∃ word : Keyword, kind = .keyword word ∧ word.spelling = n
  | .listed n => (· = .identifier n)
  | .source path => (· = .string path)
  | .unary op _ => (· = .mark op.mark)
  | .binary op => (· = .mark op.mark)
  | .assign => (· = .mark .assign)
  | .importWord _ => (· = .keyword .importWord)

/-- A token writes a leaf: it has such a kind, and stands where the leaf does. -/
structure WrittenBy (leaf : Leaf) (t : Token) : Prop where
  kind : leaf.HasKind t.kind
  location : ∀ loc ∈ leaf.location?, loc = some t.location

theorem WrittenBy.of_getD {leaf : Leaf} {t : Token} (hkind : leaf.HasKind t.kind)
    (hloc : leaf.location?.getD (some t.location) = some t.location) : leaf.WrittenBy t := by
  refine ⟨hkind, ?_⟩
  intro loc hmem
  rwa [Option.mem_def.mp hmem] at hloc

end Leaf

/-! ### The leaves of a tree -/

/-- The word of an import, if words are listed. -/
@[simp] def importLeaf (words : Bool) (loc : Option Location) : List Leaf :=
  if words then [.importWord loc] else []

mutual

/-- The leaves of an expression from left to right, with the words of imports or without them. -/
@[simp] def Expr.leaves (words : Bool) : Expr → List Leaf
  | .number value loc => [.number value loc]
  | .string value loc => [.string value loc]
  | .identifier name loc => [.name name loc]
  | .array elements _ => exprLeaves words elements
  | .object properties _ => propertyLeaves words properties
  | .lambda parameters body _ => parameters.map .listed ++ stmtLeaves words body
  | .call callee arguments _ => callee.leaves words ++ exprLeaves words arguments
  | .member object name nameLoc _ => object.leaves words ++ [.member name nameLoc]
  | .index object key _ => object.leaves words ++ key.leaves words
  | .binary op left right _ => left.leaves words ++ .binary op :: right.leaves words
  | .unary op operand loc => .unary op loc :: operand.leaves words
  | .assign target value _ => target.leaves words ++ .assign :: value.leaves words

/-- The leaves of expressions. -/
@[simp] def exprLeaves (words : Bool) : List Expr → List Leaf
  | [] => []
  | e :: rest => e.leaves words ++ exprLeaves words rest

/-- The leaves of an entry of an object. -/
@[simp] def Property.leaves (words : Bool) : Property → List Leaf
  | .mk key none loc => [.key key loc]
  | .mk key (some value) loc => .key key loc :: value.leaves words

/-- The leaves of entries of an object. -/
@[simp] def propertyLeaves (words : Bool) : List Property → List Leaf
  | [] => []
  | p :: rest => p.leaves words ++ propertyLeaves words rest

/-- The leaves of a statement. -/
@[simp] def Stmt.leaves (words : Bool) : Stmt → List Leaf
  | .declare _ name none _ loc => [.name name loc]
  | .declare _ name (some value) _ loc => .name name loc :: .assign :: value.leaves words
  | .function name parameters body _ loc =>
      .name name loc :: (parameters.map .listed ++ stmtLeaves words body)
  | .imports names source loc => importLeaf words loc ++ names.map .listed ++ [.source source]
  | .conditional condition body none _ => condition.leaves words ++ stmtLeaves words body
  | .conditional condition body (some otherwise) _ =>
      condition.leaves words ++ stmtLeaves words body ++ stmtLeaves words otherwise
  | .loop condition body _ => condition.leaves words ++ stmtLeaves words body
  | .result none _ => []
  | .result (some value) _ => value.leaves words
  | .expression value _ => value.leaves words
  | .foreign body thenBranch elseBranch _ =>
      body.leaves words ++ thenBranch.leaves words ++ elseBranch.leaves words

/-- The leaves of a part of a foreign statement. -/
@[simp] def Slot.leaves (words : Bool) : Slot → List Leaf
  | .absent => []
  | .text _ => []
  | .statements body => stmtLeaves words body

/-- The leaves of statements. -/
@[simp] def stmtLeaves (words : Bool) : List Stmt → List Leaf
  | [] => []
  | s :: rest => s.leaves words ++ stmtLeaves words rest

end

variable {words : Bool}

@[simp] theorem exprLeaves_append (a b : List Expr) :
    exprLeaves words (a ++ b) = exprLeaves words a ++ exprLeaves words b := by
  induction a with
  | nil => rfl
  | cons e rest ih => simp [ih]

@[simp] theorem propertyLeaves_append (a b : List Property) :
    propertyLeaves words (a ++ b) = propertyLeaves words a ++ propertyLeaves words b := by
  induction a with
  | nil => rfl
  | cons p rest ih => simp [ih]

@[simp] theorem stmtLeaves_append (a b : List Stmt) :
    stmtLeaves words (a ++ b) = stmtLeaves words a ++ stmtLeaves words b := by
  induction a with
  | nil => rfl
  | cons s rest ih => simp [ih]

/-- The leaves of a program from left to right, with the words of imports or without them. -/
def Program.leaves (words : Bool) (p : Program) : List Leaf :=
  stmtLeaves words p.body

namespace Syntax

/-! ### The leaves of an unfinished program -/

/-- The leaves of a branch. -/
@[simp] def Branch.leaves (words : Bool) (b : Branch) : List Leaf :=
  b.condition.leaves words ++ stmtLeaves words b.body

/-- The leaves of the earlier branches of a chain, the latest of which comes first in the list. -/
@[simp] def chainLeaves (words : Bool) : List Branch → List Leaf
  | [] => []
  | branch :: earlier => chainLeaves words earlier ++ branch.leaves words

mutual

/-- The leaves around a list of statements and in it. -/
@[simp] def Scope.leaves (words : Bool) : Scope → List Leaf
  | .program done _ => stmtLeaves words done
  | .function name parameters _ loc done outer =>
      outer.leaves words ++ .name name (some loc) :: (parameters.map .listed ++ stmtLeaves words done)
  | .lambda parameters _ done outer =>
      outer.leaves words ++ (parameters.map .listed ++ stmtLeaves words done)
  | .branch condition _ chain done outer =>
      outer.leaves words ++ chainLeaves words chain ++ condition.leaves words ++ stmtLeaves words done
  | .otherwise last chain done outer =>
      outer.leaves words ++ chainLeaves words chain ++ last.leaves words ++ stmtLeaves words done
  | .loop condition _ done outer =>
      outer.leaves words ++ condition.leaves words ++ stmtLeaves words done

/-- The leaves before a place for an expression. -/
@[simp] def Hole.leaves (words : Bool) : Hole → List Leaf
  | .statement _ outer => outer.leaves words
  | .initial _ name _ loc outer => outer.leaves words ++ [.name name (some loc), .assign]
  | .result _ outer => outer.leaves words
  | .branchCondition _ chain outer => outer.leaves words ++ chainLeaves words chain
  | .loopCondition _ outer => outer.leaves words
  | .parenthesis outer => outer.leaves words
  | .element _ done outer => outer.leaves words ++ exprLeaves words done
  | .property _ done key keyLoc outer =>
      outer.leaves words ++ propertyLeaves words done ++ [.key key (some keyLoc)]
  | .argument callee done outer =>
      outer.leaves words ++ callee.leaves words ++ exprLeaves words done
  | .key object outer => outer.leaves words ++ object.leaves words
  | .operand op loc outer => outer.leaves words ++ [.unary op (some loc)]
  | .right left op outer => outer.leaves words ++ left.leaves words ++ [.binary op]
  | .assigned target outer => outer.leaves words ++ target.leaves words ++ [.assign]

end

/-- The leaves before the parameters of a function, with its name. -/
def Callable.leaves (words : Bool) : Callable → List Leaf
  | .named name _ loc outer => outer.leaves words ++ [.name name (some loc)]
  | .anonymous _ outer => outer.leaves words

/-- The leaves of the earlier branches of a condition. -/
def Guard.leaves (words : Bool) : Guard → List Leaf
  | .branch chain => chainLeaves words chain
  | .loop => []

/-- The leaves of what was read so far. -/
def Reading.leaves (words : Bool) : Reading → List Leaf
  | .statement _ scope => scope.leaves words
  | .operand hole => hole.leaves words
  | .operator left hole => hole.leaves words ++ left.leaves words
  | .argument callee done hole => hole.leaves words ++ callee.leaves words ++ exprLeaves words done
  | .element _ done hole => hole.leaves words ++ exprLeaves words done
  | .key _ done hole => hole.leaves words ++ propertyLeaves words done
  | .value _ done k keyLoc hole =>
      hole.leaves words ++ propertyLeaves words done ++ [.key k (some keyLoc)]
  | .memberName object hole => hole.leaves words ++ object.leaves words
  | .importHead loc scope => scope.leaves words ++ importLeaf words (some loc)
  | .importName loc names scope
  | .importNext loc names scope
  | .importFrom loc names scope
  | .importSource loc names scope =>
      scope.leaves words ++ importLeaf words (some loc) ++ names.map .listed
  | .declaredName _ _ scope => scope.leaves words
  | .initial _ name _ loc scope => scope.leaves words ++ [.name name (some loc)]
  | .functionHead _ _ scope => scope.leaves words
  | .parameters owner => owner.leaves words
  | .parameterName owner names
  | .parameterNext owner names => owner.leaves words ++ names.map .listed
  | .condition guard _ scope => scope.leaves words ++ guard.leaves words
  | .block inner => inner.leaves words
  | .afterBranch last chain scope
  | .elseHead last chain scope =>
      scope.leaves words ++ chainLeaves words chain ++ last.leaves words
  | .result _ scope => scope.leaves words
  | .complete program => program.leaves words

/-! ### Finished parts -/

@[simp] theorem Scope.leaves_push (scope : Scope) (s : Stmt) :
    (scope.push s).leaves words = scope.leaves words ++ s.leaves words := by
  cases scope <;> simp [push]

@[simp] theorem leaves_nest (chain : List Branch) (innermost : Stmt) :
    (nest chain innermost).leaves words = chainLeaves words chain ++ innermost.leaves words := by
  induction chain generalizing innermost with
  | nil => rfl
  | cons branch earlier ih =>
      have hnest : nest (branch :: earlier) innermost = nest earlier
          (.conditional branch.condition branch.body (some [innermost]) branch.location) := rfl
      rw [hnest, ih]
      simp

@[simp] theorem Scope.leaves_pushChain (scope : Scope) (last : Branch)
    (otherwise : Option (List Stmt)) (chain : List Branch) :
    (scope.pushChain last otherwise chain).leaves words =
      scope.leaves words ++ chainLeaves words chain ++ last.leaves words ++
        stmtLeaves words (otherwise.getD []) := by
  cases otherwise <;> simp [pushChain]

@[simp] theorem leaves_afterOperand (e : Expr) (hole : Hole) :
    (afterOperand e hole).leaves words = hole.leaves words ++ e.leaves words := by
  fun_induction afterOperand e hole with
  | case1 e op loc outer ih => simpa using ih
  | case2 e hole h => rfl

theorem leaves_absorb (precedence : Nat) (e : Expr) (hole : Hole) :
    (absorb precedence e hole).2.leaves words ++ (absorb precedence e hole).1.leaves words =
      hole.leaves words ++ e.leaves words := by
  fun_induction absorb precedence e hole with
  | case1 e left op outer h ih => simpa using ih
  | case2 e left op outer h => rfl
  | case3 e hole h => rfl

@[simp] theorem Callable.leaves_scope (owner : Callable) (names : List String) :
    (owner.scope names).leaves words = owner.leaves words ++ names.map .listed := by
  cases owner <;> simp [Callable.scope, leaves]

end Syntax

/-! ### The tokens that are kept -/

/-- Operators are kept in the tree, and punctuation is not. -/
@[simp] def Mark.isOperator : Mark → Bool
  | .openParen | .closeParen | .openBrace | .closeBrace | .openBracket | .closeBracket => false
  | .comma | .dot | .colon | .semicolon => false
  | _ => true

/-- A token of this kind is kept in the tree.  A reserved word is kept as the name of a member, behind a dot, and the
word of an import where such words are listed. -/
@[simp] def Kind.isKept (words afterDot : Bool) : Kind → Bool
  | .number _ | .string _ | .identifier _ => true
  | .mark m => m.isOperator
  | .keyword word => afterDot || (word = .importWord && words)
  | .eof | .doc _ => false

theorem Mark.of_binary? {m : Mark} {op : BinaryOp} (h : m.binary? = some op) : m = op.mark ∧ m.isOperator = true := by
  cases m <;> cases h <;> exact ⟨rfl, rfl⟩

namespace Syntax

/-- How far the names of an import have been read. -/
inductive ImportStage where
  | outside
  | word
  /-- Behind the brace, or behind a comma, with the names before it. -/
  | opened (names : List String)
  | named (names : List String)

namespace ImportStage

/-- How far the names of an import have been read after one more token. -/
@[simp] def next (dot : Bool) (kind : Kind) : ImportStage → ImportStage
  | .outside => if kind = .keyword .importWord ∧ dot = false then .word else .outside
  | .word => if kind = .mark .openBrace then .opened [] else .outside
  | .opened names =>
      match kind with
      | .identifier name => .named (addName names name)
      | _ => .outside
  | .named names => if kind = .mark .comma then .opened names else .outside

/-- A token of this kind is a name that the import has. -/
@[simp] def repeats (kind : Kind) : ImportStage → Bool
  | .opened names => names.any fun name => kind = .identifier name
  | _ => false

/-- A token of this kind is kept, and is no name that the import has. -/
@[simp] def keeps (words dot : Bool) (stage : ImportStage) (kind : Kind) : Bool :=
  kind.isKept words dot && !stage.repeats kind

end ImportStage

/-- How far the names of an import have been read, by what comes next. -/
def Reading.stage : Reading → ImportStage
  | .importHead _ _ => .word
  | .importName _ names _ => .opened names
  | .importNext _ names _ => .named names
  | _ => .outside

@[simp] theorem stage_afterOperand (e : Expr) (hole : Hole) : (afterOperand e hole).stage = .outside := by
  fun_induction afterOperand e hole with
  | case1 e op loc outer ih => exact ih
  | case2 e hole h => rfl

/-! ### One token -/

/-- Behind the leaves of `before`, `after` has those that the tokens write. -/
def Grows (before after : List Leaf) (tokens : List Token) : Prop :=
  ∃ new, after = before ++ new ∧ List.Forall₂ Leaf.WrittenBy new tokens

theorem Grows.refl (leaves : List Leaf) : Grows leaves leaves [] :=
  ⟨[], (List.append_nil leaves).symm, .nil⟩

theorem Grows.of_leaf {before : List Leaf} {t : Token} (leaf : Leaf) (h : leaf.WrittenBy t) :
    Grows before (before ++ [leaf]) [t] :=
  ⟨[leaf], rfl, .cons h .nil⟩

theorem Grows.trans {a b c : List Leaf} {ts us : List Token} (h : Grows a b ts) (h' : Grows b c us) :
    Grows a c (ts ++ us) := by
  obtain ⟨new, rfl, hnew⟩ := h
  obtain ⟨new', rfl, hnew'⟩ := h'
  exact ⟨new ++ new', List.append_assoc _ _ _, List.rel_append hnew hnew'⟩

variable {t : Token} {r next : Reading} {before : List Leaf}

/-- What one token does to the leaves and to the names of an import. -/
structure Keeps (words : Bool) (stage : ImportStage) (dot : Bool) (before : List Leaf) (t : Token)
    (next : Reading) : Prop where
  leaves : Grows before (next.leaves words) (if stage.keeps words dot t.kind then [t] else [])
  stage : next.stage = stage.next dot t.kind

variable {stage : ImportStage} {dot : Bool}

/-- A token that is not kept changes no leaves. -/
theorem Keeps.of_eq {kind : Kind} (hkind : t.kind = kind) (hkept : stage.keeps words dot kind = false)
    (h : next.leaves words = before) (hstage : next.stage = stage.next dot kind) :
    Keeps words stage dot before t next := by
  subst hkind
  refine ⟨?_, hstage⟩
  rw [hkept, h]
  exact Grows.refl before

/-- A token that is kept adds the leaf that it writes. -/
theorem Keeps.of_leaf {kind : Kind} (leaf : Leaf) (hkind : t.kind = kind)
    (hkept : stage.keeps words dot kind = true) (h : next.leaves words = before ++ [leaf])
    (hstage : next.stage = stage.next dot kind) (hleaf : leaf.HasKind kind)
    (hloc : leaf.location?.getD (some t.location) = some t.location) :
    Keeps words stage dot before t next := by
  subst hkind
  refine ⟨?_, hstage⟩
  rw [hkept, h]
  exact Grows.of_leaf leaf (.of_getD hleaf hloc)

theorem Scope.leaves_close (words : Bool) {scope : Scope} (h : scope.close = .ok next) :
    next.leaves words = scope.leaves words ∧ next.stage = .outside := by
  cases scope <;> cases h
  · simp [Reading.leaves, Reading.stage]
  · simp
  · simp [Reading.leaves, Reading.stage]
  · simp [Reading.leaves, Reading.stage]
  · simp [Reading.leaves, Reading.stage]

theorem Scope.leaves_finish (words : Bool) {scope : Scope} (h : scope.finish = .ok next) :
    next.leaves words = scope.leaves words ∧ next.stage = .outside := by
  cases scope <;> cases h
  simp [Reading.leaves, Reading.stage, Program.leaves]

theorem Hole.keeps_begin {hole : Hole} (h : hole.begin t = .ok next) :
    Keeps words .outside false (hole.leaves words) t next := by
  unfold Hole.begin at h
  split at h <;> cases h <;> rename_i hkind
  · exact .of_leaf (.number _ _) hkind rfl (leaves_afterOperand _ _) (stage_afterOperand _ _) rfl rfl
  · exact .of_leaf (.string _ _) hkind rfl (leaves_afterOperand _ _) (stage_afterOperand _ _) rfl rfl
  · exact .of_leaf (.name _ _) hkind rfl (leaves_afterOperand _ _) (stage_afterOperand _ _) rfl rfl
  · exact .of_eq hkind rfl rfl rfl
  · exact .of_leaf (.unary .negate _) hkind rfl rfl rfl rfl rfl
  · exact .of_leaf (.unary .invert _) hkind rfl rfl rfl rfl rfl
  · exact .of_eq hkind rfl rfl rfl
  · exact .of_eq hkind rfl (by simp [Reading.leaves]) rfl
  · exact .of_eq hkind rfl (by simp [Reading.leaves]) rfl

theorem Scope.keeps_begin {scope : Scope} {doc : Option String} (h : scope.begin doc t = .ok next) :
    Keeps words .outside false (scope.leaves words) t next := by
  unfold Scope.begin at h
  split at h
  · rename_i hkind
    obtain ⟨hleaves, hstage⟩ := Scope.leaves_finish words h
    exact .of_eq hkind rfl hleaves hstage
  · rename_i hkind
    obtain ⟨hleaves, hstage⟩ := Scope.leaves_close words h
    exact .of_eq hkind rfl hleaves hstage
  · split at h <;> cases h
    exact .of_eq ‹_› rfl rfl rfl
  · cases h
    exact .of_eq ‹_› rfl rfl rfl
  · -- the word of an import is kept where words are listed
    rename_i hkind
    cases h
    cases words
    · exact .of_eq hkind rfl (by simp [Reading.leaves]) rfl
    · exact .of_leaf (.importWord _) hkind rfl rfl rfl rfl rfl
  · cases h
    exact .of_eq ‹_› rfl rfl rfl
  · cases h
    exact .of_eq ‹_› rfl rfl rfl
  · cases h
    exact .of_eq ‹_› rfl rfl rfl
  · cases h
    exact .of_eq ‹_› rfl (by simp [Reading.leaves, Guard.leaves]) rfl
  · cases h
    exact .of_eq ‹_› rfl (by simp [Reading.leaves, Guard.leaves]) rfl
  · cases h
    exact .of_eq ‹_› rfl rfl rfl
  · exact Hole.keeps_begin h

theorem Callable.keeps_begin {owner : Callable} (h : owner.begin t = .ok next) :
    Keeps words .outside false (owner.leaves words) t next := by
  unfold Callable.begin at h
  split at h <;> cases h
  exact .of_eq ‹_› rfl (by simp [Reading.leaves]) rfl

theorem Scope.keeps_enter {scope : Scope} (h : scope.enter t = .ok next) :
    Keeps words .outside false (scope.leaves words) t next := by
  unfold Scope.enter at h
  split at h <;> cases h
  exact .of_eq ‹_› rfl rfl rfl

theorem keeps_afterEntry {loc : Location} {done : List Property} {hole : Hole}
    (h : afterEntry loc done hole t = .ok next) :
    Keeps words .outside false (hole.leaves words ++ propertyLeaves words done) t next := by
  unfold afterEntry at h
  split at h <;> cases h
  · exact .of_eq ‹_› rfl rfl rfl
  · exact .of_eq ‹_› rfl (leaves_afterOperand _ _) (stage_afterOperand _ _)

theorem Hole.keeps_fill {e : Expr} {hole : Hole} (h : hole.fill e t = .ok next) :
    Keeps words .outside false (hole.leaves words ++ e.leaves words) t next := by
  fun_induction Hole.fill e t hole with
  | case1 | case2 | case3 => simpa using Scope.keeps_begin h
  | case4 | case6 | case10 | case14 | case15 | case17 =>
      cases h
      exact .of_eq ‹_› rfl (by simp [Reading.leaves]) rfl
  | case8 | case11 =>
      cases h
      exact .of_eq ‹_› rfl (by simp) (stage_afterOperand _ _)
  | case13 => simpa using keeps_afterEntry h
  | case19 e op loc outer ih => simpa using ih h
  | case20 e left op outer ih => simpa using ih h
  | case21 e target outer ih => simpa using ih h
  | _ => cases h

/-- An operator is kept behind all that it takes as its left operand. -/
theorem Hole.keeps_extend {left : Expr} {hole : Hole} (h : hole.extend left t = .ok next) :
    Keeps words .outside false (hole.leaves words ++ left.leaves words) t next := by
  unfold Hole.extend at h
  split at h
  · cases h
    exact .of_eq ‹_› rfl (by simp [Reading.leaves]) rfl
  · cases h
    exact .of_eq ‹_› rfl rfl rfl
  · cases h
    exact .of_eq ‹_› rfl rfl rfl
  · dsimp only at h
    split at h <;> cases h
    rw [← leaves_absorb 0 left hole]
    exact .of_leaf .assign ‹_› rfl rfl rfl rfl rfl
  · rename_i mark _ _ _ _ hkind
    split at h
    · rename_i op hop
      cases h
      obtain ⟨rfl, hkept⟩ := Mark.of_binary? hop
      rw [← leaves_absorb op.precedence left hole]
      exact .of_leaf (.binary op) hkind ((Bool.and_true _).trans hkept) rfl rfl rfl rfl
    · exact Hole.keeps_fill h
  · exact Hole.keeps_fill h

/-- One token adds the leaf that it writes, if it is kept. -/
theorem Reading.keeps_step (hr : r.recent.ended = false) (h : r.step t = .ok next) :
    Keeps words r.stage r.recent.dot (r.leaves words) t next := by
  unfold Reading.step at h
  split at h
  · exact Scope.keeps_begin h
  · exact Hole.keeps_begin h
  · exact Hole.keeps_extend h
  · split at h
    · cases h
      exact .of_eq ‹_› rfl (by simp [leaves]) rfl
    · exact Hole.keeps_begin h
  · split at h
    · cases h
      exact .of_eq ‹_› rfl (leaves_afterOperand _ _) (stage_afterOperand _ _)
    · exact Hole.keeps_begin h
  · split at h <;> cases h <;> rename_i hkind
    · exact .of_eq hkind rfl (leaves_afterOperand _ _) (stage_afterOperand _ _)
    · exact .of_leaf (.key _ _) hkind rfl rfl rfl (.inl rfl) rfl
    · exact .of_leaf (.key _ _) hkind rfl rfl rfl (.inr rfl) rfl
  · split at h
    · cases h
      exact .of_eq ‹_› rfl rfl rfl
    · simpa [leaves, stage, recent] using keeps_afterEntry h
  · -- behind a dot every word is kept
    split at h <;> cases h <;> rename_i hkind
    · exact .of_leaf (.member _ _) hkind rfl (by simp [leaves]) rfl (.inl rfl) rfl
    · exact .of_leaf (.member _ _) hkind rfl (by simp [leaves]) (by simp [stage, recent]) (.inr ⟨_, rfl, rfl⟩) rfl
  · split at h <;> cases h <;> rename_i hkind
    · exact .of_eq hkind rfl (by simp [leaves]) rfl
    · exact .of_leaf (.listed _) hkind rfl rfl rfl rfl rfl
  · -- a name that the import has is not kept again
    split at h <;> cases h <;> rename_i hkind
    · exact .of_eq hkind (by simp) rfl rfl
    · rename_i names _ _ name
      by_cases hname : name ∈ names
      · exact .of_eq hkind (by simpa [stage] using hname) (by simp [leaves, addName, hname]) rfl
      · exact .of_leaf (.listed name) hkind (by simpa [stage, List.forall_mem_ne] using hname)
          (by simp [leaves, addName, hname]) rfl rfl rfl
  · split at h <;> cases h <;> rename_i hkind
    · exact .of_eq hkind rfl rfl rfl
    · exact .of_eq hkind rfl rfl rfl
  · split at h <;> cases h
    exact .of_eq ‹_› rfl rfl rfl
  · split at h <;> cases h
    exact .of_leaf (.source _) ‹_› rfl (by simp [leaves]) rfl rfl rfl
  · split at h <;> cases h
    exact .of_leaf (.name _ _) ‹_› rfl rfl rfl rfl rfl
  · split at h
    · cases h
      exact .of_leaf .assign ‹_› rfl (by simp [leaves]) rfl rfl rfl
    · split at h
      · cases h
      · simpa [leaves, stage, recent] using Scope.keeps_begin h
  · split at h
    · cases h
      exact .of_leaf (.name _ _) ‹_› rfl rfl rfl rfl rfl
    · exact Callable.keeps_begin h
  · rename_i owner
    have hdot : (Reading.parameters owner).recent.dot = false := by
      cases owner <;> rfl
    rw [hdot]
    exact Callable.keeps_begin h
  · split at h <;> cases h
    · exact .of_eq ‹_› rfl (Callable.leaves_scope _ _) rfl
    · exact .of_leaf (.listed _) ‹_› rfl (by simp [leaves]) rfl rfl rfl
  · split at h <;> cases h
    · exact .of_eq ‹_› rfl rfl rfl
    · exact .of_eq ‹_› rfl (Callable.leaves_scope _ _) rfl
  · split at h <;> cases h
    exact .of_eq ‹_› rfl rfl rfl
  · split at h <;> cases h
    exact .of_eq ‹_› rfl (by simp [leaves, Guard.leaves]) rfl
  · exact Scope.keeps_enter h
  · split at h
    · cases h
      exact .of_eq ‹_› rfl rfl rfl
    · simpa [leaves, stage, recent] using Scope.keeps_begin h
  · split at h
    · cases h
      exact .of_eq ‹_› rfl (by simp [leaves, Guard.leaves]) rfl
    · simpa [leaves, stage, recent] using Scope.keeps_enter h
  · split at h
    · simpa [leaves, stage, recent] using Scope.keeps_begin h
    · simpa [leaves, stage, recent] using Scope.keeps_begin h
    · simpa [leaves, stage, recent] using Scope.keeps_begin h
    · exact Hole.keeps_begin h
  · cases hr

/-! ### All tokens -/

/-- The tokens that are kept, without the names that an import already has. -/
def ImportStage.kept (words : Bool) (stage : ImportStage) (dot : Bool) : List Token → List Token
  | [] => []
  | t :: ts =>
      (if stage.keeps words dot t.kind then [t] else []) ++
        (stage.next dot t.kind).kept words (t.kind = .mark .dot) ts

theorem ImportStage.kept_sublist (words : Bool) (stage : ImportStage) (dot : Bool) (tokens : List Token) :
    (stage.kept words dot tokens).Sublist tokens := by
  induction tokens generalizing stage dot with
  | nil => exact .slnil
  | cons t ts ih =>
      rw [kept]
      split
      · exact (ih _ _).cons_cons t
      · exact (ih _ _).cons t

/-- The end of the text is not kept. -/
theorem ImportStage.kept_concat (words : Bool) (stage : ImportStage) (dot : Bool) (init : List Token)
    {last : Token} (h : last.kind = .eof) :
    stage.kept words dot (init ++ [last]) = stage.kept words dot init := by
  induction init generalizing stage dot with
  | nil => simp [kept, h]
  | cons t ts ih => rw [List.cons_append, kept, kept, ih]

/-- The text has not ended behind tokens none of which ends it. -/
theorem Reading.ended_takeAll {tokens : List Token} (hr : r.recent.ended = false)
    (hkinds : ∀ t ∈ tokens, t.kind ≠ .eof) (h : r.takeAll tokens = .ok next) :
    next.recent.ended = false := by
  rw [recent_takeAll hr hkinds h]
  rcases tokens.eq_nil_or_concat with rfl | ⟨init, last, rfl⟩
  · exact hr
  · have hlast := hkinds last (by simp)
    simpa using hlast

theorem Reading.keeps_takeAll {tokens : List Token} (words : Bool) (hr : r.recent.ended = false)
    (hkinds : ∀ t ∈ tokens, t.kind ≠ .eof) (h : r.takeAll tokens = .ok next) :
    Grows (r.leaves words) (next.leaves words) (r.stage.kept words r.recent.dot tokens) := by
  induction tokens generalizing r with
  | nil =>
      cases h
      exact Grows.refl _
  | cons t ts ih =>
      obtain ⟨s, hstep, hrest⟩ := Reading.exists_step h
      have hkeeps : Keeps words r.stage r.recent.dot (r.leaves words) t s := keeps_step hr hstep
      have hrecent := recent_step hr hstep
      have hended : s.recent.ended = false := by
        simpa [hrecent] using hkinds t List.mem_cons_self
      have hbehind := ih hended (fun u hu => hkinds u (List.mem_cons_of_mem t hu)) hrest
      rw [hkeeps.stage, hrecent] at hbehind
      exact hkeeps.leaves.trans hbehind

/-- The leaves of a program are written by the tokens that are kept, one by each. -/
theorem leaves_of_programOf {tokens : List Token} {p : Program} (words : Bool) (h : Ended tokens)
    (hp : programOf tokens = .ok p) :
    List.Forall₂ Leaf.WrittenBy (p.leaves words) (ImportStage.outside.kept words false tokens) := by
  have hall := h.finished hp
  obtain ⟨init, last, rfl, hlast, hinit⟩ := h
  obtain ⟨r, hread, hstep⟩ := Reading.exists_concat hall
  have hgrows : Grows [] (r.leaves words) (ImportStage.outside.kept words false init) :=
    Reading.keeps_takeAll words rfl hinit hread
  have hkeeps : Keeps words r.stage r.recent.dot (r.leaves words) last (.complete p) :=
    Reading.keeps_step (Reading.ended_takeAll rfl hinit hread) hstep
  have hend : Grows (r.leaves words) ((Reading.complete p).leaves words) [] := by
    simpa [hlast] using hkeeps.leaves
  obtain ⟨new, hnew, hwritten⟩ := hgrows.trans hend
  rw [ImportStage.kept_concat words _ _ init hlast, show p.leaves words = new from hnew]
  simpa using hwritten

end Syntax

end ScriptLens
