import ScriptLens.Proofs.Syntax.Rendering

/-!
# Reading the rendering of an expression

What reading the rendering of an expression leads to is said for every place the expression can stand in
and for all that follows it (`ReadsExpr`).  There is one lemma for each kind of expression; those for
expressions with parts assume the same of the parts.
-/

namespace ScriptLens.Syntax

variable {goal : Reading → Prop} {whole : Bool}

/-! ### Places and marks -/

/-- A place without an operator before it that waits for its right operand. -/
def Hole.Plain : Hole → Prop
  | .operand _ _ _ => False
  | .right _ _ _ => False
  | _ => True

theorem Hole.Plain.afterOperand {hole : Hole} (h : hole.Plain) (e : Expr) :
    afterOperand e hole = .operator e hole := by
  cases hole with
  | operand op loc outer => exact absurd h id
  | right left op outer => exact absurd h id
  | _ => rfl

theorem Hole.Plain.absorb {hole : Hole} (h : hole.Plain) (precedence : Nat) (e : Expr) :
    absorb precedence e hole = (e, hole) := by
  cases hole with
  | operand op loc outer => exact absurd h id
  | right left op outer => exact absurd h id
  | _ => rfl

/-- Marks that end an expression. -/
def ending : List Mark :=
  [.closeParen, .closeBracket, .closeBrace, .comma, .semicolon]

/-- Such a mark fills the place with the expression before it. -/
theorem step_ending {m : Mark} (hm : m ∈ ending) (e : Expr) (hole : Hole) (loc : Location) :
    (Reading.operator e hole).step ⟨.mark m, loc⟩ = hole.fill e ⟨.mark m, loc⟩ := by
  simp only [ending, List.mem_cons, List.not_mem_nil, or_false] at hm
  rcases hm with rfl | rfl | rfl | rfl | rfl <;> rfl

/-- Statements that are added to a scope one after the other. -/
def Scope.append (ss : List Stmt) : Scope → Scope
  | .program done loc => .program (done ++ ss) loc
  | .function name parameters doc loc done outer =>
      .function name parameters doc loc (done ++ ss) outer
  | .lambda parameters loc done outer => .lambda parameters loc (done ++ ss) outer
  | .branch condition loc chain done outer => .branch condition loc chain (done ++ ss) outer
  | .otherwise last chain done outer => .otherwise last chain (done ++ ss) outer
  | .loop condition loc done outer => .loop condition loc (done ++ ss) outer

theorem Scope.append_nil (scope : Scope) : scope.append [] = scope := by
  cases scope <;> simp [Scope.append]

theorem Scope.append_cons (s : Stmt) (ss : List Stmt) (scope : Scope) :
    scope.append (s :: ss) = (scope.push s).append ss := by
  cases scope <;> simp [Scope.append, Scope.push]

/-- Kinds that can follow a branch without an `else` of its own. -/
def Follows (kinds : List Kind) : Prop :=
  ∃ kind rest, kinds = kind :: rest ∧ kind ≠ .keyword .elseWord

/-! ### What it means to read a part -/

/-- Reading the rendering of `e` up to a mark that ends it leads to `e` at that mark. -/
def ReadsExpr (whole : Bool) (e : Expr) : Prop :=
  ∀ (goal : Reading → Prop) (hole : Hole) (m : Mark) (kinds : List Kind), hole.Plain → m ∈ ending →
    (∀ e', e'.unlocated = e.unlocated → Reads goal (.operator e' hole) (.mark m :: kinds)) →
    Reads goal (.operand hole) (e.kinds whole ++ .mark m :: kinds)

/-- In parentheses an expression can stand anywhere. -/
theorem ReadsExpr.inParentheses {e : Expr} (h : ReadsExpr whole e) {hole : Hole} {kinds : List Kind}
    (hnext : ∀ e', e'.unlocated = e.unlocated → Reads goal (afterOperand e' hole) kinds) :
    Reads goal (.operand hole) (parenthesized (e.kinds whole) ++ kinds) := by
  simp only [parenthesized, List.cons_append, List.append_assoc, List.nil_append]
  intro loc
  refine ⟨.operand (.parenthesis hole), rfl, ?_⟩
  refine h goal (.parenthesis hole) .closeParen kinds trivial (by decide) ?_
  intro e' he' loc'
  exact ⟨afterOperand e' hole, rfl, hnext e' he'⟩

/-- An expression that is part of a statement, in parentheses or not. -/
theorem ReadsExpr.inStatement {e : Expr} (h : ReadsExpr whole e) {hole : Hole} (hp : hole.Plain)
    {m : Mark} (hm : m ∈ ending) {kinds : List Kind}
    (hnext : ∀ e', e'.unlocated = e.unlocated →
      Reads goal (.operator e' hole) (.mark m :: kinds)) :
    Reads goal (.operand hole) (enclosed whole (e.kinds whole) ++ .mark m :: kinds) := by
  cases whole with
  | false => exact h goal hole m kinds hp hm hnext
  | true =>
      refine h.inParentheses fun e' he' => ?_
      rw [hp.afterOperand]
      exact hnext e' he'

/-! ### Operands and operators -/

theorem readsExpr_number (value : Binary64) (loc : Option Location) :
    ReadsExpr whole (.number value loc) := by
  intro goal hole m kinds hp hm hnext here
  refine ⟨_, rfl, ?_⟩
  rw [hp.afterOperand]
  exact hnext _ rfl

theorem readsExpr_string (value : String) (loc : Option Location) :
    ReadsExpr whole (.string value loc) := by
  intro goal hole m kinds hp hm hnext here
  refine ⟨_, rfl, ?_⟩
  rw [hp.afterOperand]
  exact hnext _ rfl

theorem readsExpr_identifier (name : String) (loc : Option Location) :
    ReadsExpr whole (.identifier name loc) := by
  intro goal hole m kinds hp hm hnext here
  refine ⟨_, rfl, ?_⟩
  rw [hp.afterOperand]
  exact hnext _ rfl

theorem readsExpr_member {object : Expr} (ho : ReadsExpr whole object) (name : String)
    (nameLoc loc : Option Location) : ReadsExpr whole (.member object name nameLoc loc) := by
  intro goal hole m kinds hp hm hnext
  rw [Expr.kinds, List.append_assoc]
  refine ho.inParentheses fun object' hobject => ?_
  rw [hp.afterOperand]
  intro dot
  refine ⟨.memberName object' hole, rfl, fun here => ⟨_, rfl, hnext _ ?_⟩⟩
  simp [hobject]

theorem readsExpr_index {object key : Expr} (ho : ReadsExpr whole object)
    (hk : ReadsExpr whole key) (loc : Option Location) :
    ReadsExpr whole (.index object key loc) := by
  intro goal hole m kinds hp hm hnext
  simp only [Expr.kinds, List.append_assoc, List.cons_append, List.nil_append]
  refine ho.inParentheses fun object' hobject => ?_
  rw [hp.afterOperand]
  intro bracket
  refine ⟨.operand (.key object' hole), rfl, ?_⟩
  refine hk.inParentheses fun key' hkey here => ⟨_, rfl, hnext _ ?_⟩
  simp [hobject, hkey]

theorem readsExpr_binary (op : BinaryOp) {left right : Expr} (hl : ReadsExpr whole left)
    (hr : ReadsExpr whole right) (loc : Option Location) :
    ReadsExpr whole (.binary op left right loc) := by
  intro goal hole m kinds hp hm hnext
  rw [Expr.kinds, List.append_assoc]
  refine hl.inParentheses fun left' hleft => ?_
  rw [hp.afterOperand]
  intro here
  refine ⟨.operand (.right left' op hole), ?_, ?_⟩
  · have habsorb := hp.absorb op.precedence left'
    cases op <;> simp [Reading.step, Hole.extend, BinaryOp.mark, Mark.binary?] at habsorb ⊢ <;>
      simp [habsorb]
  · refine hr.inParentheses fun right' hright => ?_
    -- the mark behind the right operand ends the whole operation
    refine (hnext (.binary op left' right' left'.location) ?_).of_step fun loc' => ?_
    · simp [hleft, hright]
    · rw [step_ending hm]
      exact step_ending hm right' (.right left' op hole) loc'

theorem readsExpr_unary (op : UnaryOp) {operand : Expr} (ho : ReadsExpr whole operand)
    (loc : Option Location) : ReadsExpr whole (.unary op operand loc) := by
  intro goal hole m kinds hp hm hnext here
  refine ⟨.operand (.operand op here hole), ?_, ?_⟩
  · cases op <;> rfl
  · refine ho.inParentheses fun operand' hoperand => ?_
    have hafter : afterOperand operand' (.operand op here hole) =
        .operator (.unary op operand' here) hole := by
      rw [Syntax.afterOperand, hp.afterOperand]
    rw [hafter]
    refine hnext _ ?_
    simp [hoperand]

theorem readsExpr_assign {target value : Expr} (htarget : target.isTarget = true)
    (ht : ReadsExpr whole target) (hv : ReadsExpr whole value) (loc : Option Location) :
    ReadsExpr whole (.assign target value loc) := by
  intro goal hole m kinds hp hm hnext
  rw [Expr.kinds, List.append_assoc]
  refine ht.inParentheses fun target' htarget' => ?_
  rw [hp.afterOperand]
  intro here
  refine ⟨.operand (.assigned target' hole), ?_, ?_⟩
  · have hassigned : target'.isTarget = true := by rw [Expr.isTarget_congr htarget', htarget]
    simp [Reading.step, Hole.extend, hp.absorb, hassigned]
  · refine hv.inParentheses fun value' hvalue => ?_
    refine (hnext (.assign target' value' target'.location) ?_).of_step fun loc' => ?_
    · simp [htarget', hvalue]
    · rw [step_ending hm]
      exact step_ending hm value' (.assigned target' hole) loc'

/-! ### Lists of expressions -/

/-- A list of expressions between its brackets: the reading before an expression or the end of the list,
the place for an expression, the mark that ends the list, and the reading behind it.  The first three
depend on the expressions that were read. -/
structure Sequence where
  before : List Expr → Reading
  place : List Expr → Hole
  stop : Mark
  behind : List Expr → Reading
  plain : ∀ es, (place es).Plain
  ends : stop ∈ ending
  start : ∀ es loc, (before es).step ⟨.mark .openParen, loc⟩ =
    (Reading.operand (place es)).step ⟨.mark .openParen, loc⟩
  comma : ∀ es e loc, (place es).fill e ⟨.mark .comma, loc⟩ = .ok (before (es ++ [e]))
  last : ∀ es e loc, (place es).fill e ⟨.mark stop, loc⟩ = .ok (behind (es ++ [e]))
  close : ∀ es loc, (before es).step ⟨.mark stop, loc⟩ = .ok (behind es)

/-- The elements of an array. -/
def Sequence.elements (loc : Location) (hole : Hole) : Sequence where
  before es := .element loc es hole
  place es := .element loc es hole
  stop := .closeBracket
  behind es := afterOperand (.array es loc) hole
  plain _ := trivial
  ends := by decide
  start _ _ := rfl
  comma _ _ _ := rfl
  last _ _ _ := rfl
  close _ _ := rfl

/-- The arguments of a call. -/
def Sequence.arguments (callee : Expr) (hole : Hole) : Sequence where
  before es := .argument callee es hole
  place es := .argument callee es hole
  stop := .closeParen
  behind es := .operator (.call callee es callee.location) hole
  plain _ := trivial
  ends := by decide
  start _ _ := rfl
  comma _ _ _ := rfl
  last _ _ _ := rfl
  close _ _ := rfl

/-- Reading the rendering of `es` inside any brackets leads to `es` behind them. -/
def ReadsExprs (whole : Bool) (es : List Expr) : Prop :=
  ∀ (goal : Reading → Prop) (list : Sequence) (done : List Expr) (kinds : List Kind),
    (∀ es', unlocatedExprs es' = unlocatedExprs es → Reads goal (list.behind (done ++ es')) kinds) →
    Reads goal (list.before done) (kindsOfExprs whole es ++ .mark list.stop :: kinds)

theorem readsExprs_nil : ReadsExprs whole [] := by
  intro goal list done kinds hnext loc
  refine ⟨list.behind done, list.close done loc, ?_⟩
  simpa using hnext [] rfl

/-- An expression of a list, and the mark behind it. -/
theorem ReadsExpr.item {e : Expr} (h : ReadsExpr whole e) (list : Sequence) (done : List Expr)
    {m : Mark} (hm : m ∈ ending) {next : Expr → Reading}
    (hfill : ∀ e' loc, (list.place done).fill e' ⟨.mark m, loc⟩ = .ok (next e')) {kinds : List Kind}
    (hnext : ∀ e', e'.unlocated = e.unlocated → Reads goal (next e') kinds) :
    Reads goal (list.before done) (parenthesized (e.kinds whole) ++ .mark m :: kinds) := by
  have hplace : Reads goal (.operand (list.place done))
      (parenthesized (e.kinds whole) ++ .mark m :: kinds) := by
    refine h.inParentheses fun e' he' loc => ⟨next e', ?_, hnext e' he'⟩
    rw [(list.plain done).afterOperand, step_ending hm, hfill]
  exact hplace.of_step (list.start done)

theorem readsExprs_single {e : Expr} (h : ReadsExpr whole e) : ReadsExprs whole [e] := by
  intro goal list done kinds hnext
  refine h.item list done list.ends (list.last done) fun e' he' => ?_
  exact hnext [e'] (by simp [he'])

theorem readsExprs_cons {e below : Expr} {rest : List Expr} (h : ReadsExpr whole e)
    (hrest : ReadsExprs whole (below :: rest)) : ReadsExprs whole (e :: below :: rest) := by
  intro goal list done kinds hnext
  rw [kindsOfExprs, List.append_assoc]
  refine h.item list done (by decide) (list.comma done) fun e' he' => ?_
  refine hrest goal list (done ++ [e']) kinds fun es' hes' => ?_
  rw [List.append_assoc]
  exact hnext (e' :: es') (by simp [he', hes'])

theorem readsExpr_array {elements : List Expr} (h : ReadsExprs whole elements)
    (loc : Option Location) : ReadsExpr whole (.array elements loc) := by
  intro goal hole m kinds hp hm hnext
  simp only [Expr.kinds, List.append_assoc, List.cons_append, List.nil_append]
  intro here
  refine ⟨.element here [] hole, rfl, ?_⟩
  refine h goal (.elements here hole) [] _ fun es' hes' => ?_
  have hbehind : (Sequence.elements here hole).behind ([] ++ es') =
      .operator (.array es' here) hole := hp.afterOperand _
  rw [hbehind]
  exact hnext _ (by simp [hes'])

theorem readsExpr_call {callee : Expr} (hc : ReadsExpr whole callee) {arguments : List Expr}
    (ha : ReadsExprs whole arguments) (loc : Option Location) :
    ReadsExpr whole (.call callee arguments loc) := by
  intro goal hole m kinds hp hm hnext
  simp only [Expr.kinds, List.append_assoc, List.cons_append, List.nil_append]
  refine hc.inParentheses fun callee' hcallee => ?_
  rw [hp.afterOperand]
  intro here
  refine ⟨.argument callee' [] hole, rfl, ?_⟩
  refine ha goal (.arguments callee' hole) [] _ fun es' hes' => ?_
  exact hnext _ (by simp [hcallee, hes'])

/-! ### Entries of an object -/

/-- Reading the rendering of `p` up to the mark behind it leads to `p` at that mark. -/
def ReadsProperty (whole : Bool) (p : Property) : Prop :=
  ∀ (goal : Reading → Prop) (loc : Location) (done : List Property) (hole : Hole) (m : Mark)
      (kinds : List Kind), m = .comma ∨ m = .closeBrace →
    (∀ p', p'.unlocated = p.unlocated → ∀ here, ∃ next,
      afterEntry loc (done ++ [p']) hole ⟨.mark m, here⟩ = .ok next ∧ Reads goal next kinds) →
    Reads goal (.key loc done hole) (p.kinds whole ++ .mark m :: kinds)

/-- Reading the rendering of `ps` up to the brace that ends the object leads to the object. -/
def ReadsProperties (whole : Bool) (ps : List Property) : Prop :=
  ∀ (goal : Reading → Prop) (loc : Location) (done : List Property) (hole : Hole)
      (kinds : List Kind),
    (∀ ps', unlocatedProperties ps' = unlocatedProperties ps →
      Reads goal (afterOperand (.object (done ++ ps') loc) hole) kinds) →
    Reads goal (.key loc done hole) (kindsOfProperties whole ps ++ .mark .closeBrace :: kinds)

theorem readsProperty_short (key : String) (loc : Option Location) :
    ReadsProperty whole (.mk key none loc) := by
  intro goal here done hole m kinds hm hnext keyLoc
  refine ⟨.value here done key keyLoc hole, rfl, fun loc' => ?_⟩
  have hentry := hnext (.mk key none keyLoc) rfl loc'
  rcases hm with rfl | rfl <;> exact hentry

theorem readsProperty_value (key : String) {value : Expr} (h : ReadsExpr whole value)
    (loc : Option Location) : ReadsProperty whole (.mk key (some value) loc) := by
  intro goal here done hole m kinds hm hnext keyLoc
  refine ⟨.value here done key keyLoc hole, rfl, fun colon => ?_⟩
  refine ⟨.operand (.property here done key keyLoc hole), rfl, ?_⟩
  refine h.inParentheses fun value' hvalue loc' => ?_
  have hentry := hnext (.mk key (some value') keyLoc) (by simp [hvalue]) loc'
  rcases hm with rfl | rfl <;> exact hentry

theorem readsProperties_nil : ReadsProperties whole [] := by
  intro goal loc done hole kinds hnext here
  refine ⟨afterOperand (.object done loc) hole, rfl, ?_⟩
  simpa using hnext [] rfl

theorem readsProperties_single {p : Property} (h : ReadsProperty whole p) :
    ReadsProperties whole [p] := by
  intro goal loc done hole kinds hnext
  refine h goal loc done hole .closeBrace kinds (Or.inr rfl) fun p' hp' here => ?_
  exact ⟨_, rfl, hnext [p'] (by simp [hp'])⟩

theorem readsProperties_cons {p below : Property} {rest : List Property}
    (h : ReadsProperty whole p) (hrest : ReadsProperties whole (below :: rest)) :
    ReadsProperties whole (p :: below :: rest) := by
  intro goal loc done hole kinds hnext
  rw [kindsOfProperties, List.append_assoc]
  refine h goal loc done hole .comma _ (Or.inl rfl) fun p' hp' here => ⟨_, rfl, ?_⟩
  refine hrest goal loc (done ++ [p']) hole kinds fun ps' hps' => ?_
  rw [List.append_assoc]
  exact hnext (p' :: ps') (by simp [hp', hps'])

theorem readsExpr_object {properties : List Property} (h : ReadsProperties whole properties)
    (loc : Option Location) : ReadsExpr whole (.object properties loc) := by
  intro goal hole m kinds hp hm hnext
  simp only [Expr.kinds, List.append_assoc, List.cons_append, List.nil_append]
  intro here
  refine ⟨.key here [] hole, rfl, ?_⟩
  refine h goal here [] hole _ fun ps' hps' => ?_
  rw [hp.afterOperand]
  exact hnext _ (by simp [hps'])

/-! ### Names -/

theorem reads_parameterNames {owner : Callable} {names done : List String} {kinds : List Kind}
    (hnext : Reads goal (.block (owner.scope (done ++ names))) kinds) :
    Reads goal (.parameterName owner done) (nameKinds names ++ .mark .closeParen :: kinds) := by
  fun_induction nameKinds names generalizing done with
  | case1 =>
      rw [List.append_nil] at hnext
      exact fun here => ⟨_, rfl, hnext⟩
  | case2 name => exact fun here => ⟨_, rfl, fun close => ⟨_, rfl, hnext⟩⟩
  | case3 name below rest ih =>
      refine fun here => ⟨_, rfl, fun comma => ⟨_, rfl, ih ?_⟩⟩
      rwa [List.append_assoc]

theorem reads_parameters {owner : Callable} {names : List String} {kinds : List Kind}
    (hnext : Reads goal (.block (owner.scope names)) kinds) :
    Reads goal (.parameters owner) (parameterKinds names ++ kinds) := by
  simp only [parameterKinds, List.append_assoc, List.cons_append, List.nil_append]
  refine fun here => ⟨.parameterName owner [], rfl, reads_parameterNames ?_⟩
  rwa [List.nil_append]

theorem addName_of_nodup {done rest : List String} {name : String}
    (h : (done ++ name :: rest).Nodup) : addName done name = done ++ [name] := by
  have hnew : name ∉ done := by
    intro hmem
    exact (List.nodup_append.mp h).2.2 name hmem name List.mem_cons_self rfl
  simp [addName, hnew]

theorem reads_importNames {scope : Scope} {loc : Location} {names done : List String}
    (hd : (done ++ names).Nodup) {kinds : List Kind}
    (hnext : Reads goal (.importFrom loc (done ++ names) scope) kinds) :
    Reads goal (.importName loc done scope) (nameKinds names ++ .mark .closeBrace :: kinds) := by
  fun_induction nameKinds names generalizing done with
  | case1 =>
      rw [List.append_nil] at hnext
      exact fun here => ⟨_, rfl, hnext⟩
  | case2 name =>
      refine fun here => ⟨.importNext loc (addName done name) scope, rfl, fun close => ?_⟩
      rw [addName_of_nodup hd]
      exact ⟨_, rfl, hnext⟩
  | case3 name below rest ih =>
      refine fun here => ⟨.importNext loc (addName done name) scope, rfl, fun comma => ?_⟩
      rw [addName_of_nodup hd]
      refine ⟨.importName loc (done ++ [name]) scope, rfl, ih ?_ ?_⟩
      · rwa [List.append_assoc]
      · rwa [List.append_assoc]

/-! ### Bodies -/

/-- Reading the rendering of `ss` up to what follows it leads to the scope with `ss` in it. -/
def ReadsStmts (whole : Bool) (ss : List Stmt) : Prop :=
  ∀ (goal : Reading → Prop) (scope : Scope) (kinds : List Kind), Follows kinds →
    (∀ ss', unlocatedStmts ss' = unlocatedStmts ss →
      Reads goal (.statement none (scope.append ss')) kinds) →
    Reads goal (.statement none scope) (kindsOfStmts whole ss ++ kinds)

/-- A body in braces. -/
theorem ReadsStmts.inBraces {ss : List Stmt} (h : ReadsStmts whole ss) {inner : Scope}
    (next : List Stmt → Reading) (hclose : ∀ ss', (inner.append ss').close = .ok (next ss'))
    {kinds : List Kind}
    (hnext : ∀ ss', unlocatedStmts ss' = unlocatedStmts ss → Reads goal (next ss') kinds) :
    Reads goal (.block inner)
      (.mark .openBrace :: (kindsOfStmts whole ss ++ .mark .closeBrace :: kinds)) := by
  refine fun here => ⟨.statement none inner, rfl, ?_⟩
  have hfollows : Follows (.mark .closeBrace :: kinds) := ⟨_, _, rfl, by decide⟩
  refine h goal inner _ hfollows fun ss' hss' close => ?_
  exact ⟨next ss', hclose ss', hnext ss' hss'⟩

theorem readsExpr_lambda (parameters : List String) {body : List Stmt}
    (h : ReadsStmts whole body) (loc : Option Location) :
    ReadsExpr whole (.lambda parameters body loc) := by
  intro goal hole m kinds hp hm hnext
  simp only [Expr.kinds, List.append_assoc, List.cons_append, List.nil_append]
  refine fun here => ⟨.parameters (.anonymous here hole), rfl, reads_parameters ?_⟩
  refine h.inBraces (fun ss' => afterOperand (.lambda parameters ss' here) hole) (fun ss' => rfl)
    fun ss' hss' => ?_
  rw [hp.afterOperand]
  exact hnext _ (by simp [hss'])

end ScriptLens.Syntax
