import ScriptLens.Proofs.Syntax.ReadsExpr
import ScriptLens.Proofs.Syntax.WellFormed

/-!
# Reading a canonical rendering

A canonical rendering of a well-formed program is read as that program, but for locations.  Statements are
treated like expressions, with one lemma for each kind of statement, and the program follows by induction
over its tree.

Main statements: `readsExpr`, `readsStmts` and `read_wellFormed_and_rendering`.
-/

namespace ScriptLens.Syntax

variable {goal : Reading → Prop} {whole : Bool}

/-! ### The beginning of an expression -/

/-- Kinds with which an expression starts and no other statement does. -/
inductive StartsExpr : Kind → Prop where
  | number (value : Binary64) : StartsExpr (.number value)
  | string (value : String) : StartsExpr (.string value)
  | identifier (name : String) : StartsExpr (.identifier name)
  | operator (op : UnaryOp) : StartsExpr (.mark op.mark)
  | openParen : StartsExpr (.mark .openParen)
  | openBracket : StartsExpr (.mark .openBracket)
  | openBrace : StartsExpr (.mark .openBrace)

/-- Kinds that start like an expression.  A function without a name is told from one with a name by what
follows `fn`. -/
def Starts (kinds : List Kind) : Prop :=
  (∃ kind rest, kinds = kind :: rest ∧ StartsExpr kind) ∨
    ∃ rest, kinds = .keyword .fnWord :: .mark .openParen :: rest

theorem Starts.append {kinds : List Kind} (h : Starts kinds) (more : List Kind) :
    Starts (kinds ++ more) := by
  rcases h with ⟨kind, rest, rfl, hkind⟩ | ⟨rest, rfl⟩
  · exact Or.inl ⟨kind, rest ++ more, rfl, hkind⟩
  · exact Or.inr ⟨rest ++ more, rfl⟩

theorem Starts.follows {kinds : List Kind} (h : Starts kinds) : Follows kinds := by
  rcases h with ⟨kind, rest, rfl, hkind⟩ | ⟨rest, rfl⟩
  · refine ⟨kind, rest, rfl, ?_⟩
    cases hkind <;> simp
  · exact ⟨_, _, rfl, by decide⟩

theorem starts_parenthesized (kinds : List Kind) : Starts (parenthesized kinds) :=
  Or.inl ⟨_, _, rfl, .openParen⟩

theorem starts_kinds (e : Expr) : Starts (e.kinds whole) := by
  cases e with
  | number value loc => exact Or.inl ⟨_, _, rfl, .number value⟩
  | string value loc => exact Or.inl ⟨_, _, rfl, .string value⟩
  | identifier name loc => exact Or.inl ⟨_, _, rfl, .identifier name⟩
  | array elements loc => exact Or.inl ⟨_, _, rfl, .openBracket⟩
  | object properties loc => exact Or.inl ⟨_, _, rfl, .openBrace⟩
  | lambda parameters body loc => exact Or.inr ⟨_, rfl⟩
  | unary op operand loc => exact Or.inl ⟨_, _, rfl, .operator op⟩
  | _ => exact (starts_parenthesized _).append _

theorem starts_enclosed (e : Expr) : Starts (enclosed whole (e.kinds whole)) := by
  cases whole with
  | false => exact starts_kinds e
  | true => exact starts_parenthesized _

/-- A statement that starts like an expression is one. -/
theorem Starts.reads_statement {kinds : List Kind} (h : Starts kinds) {scope : Scope}
    (hnext : ∀ loc, Reads goal (.operand (.statement loc scope)) kinds) :
    Reads goal (.statement none scope) kinds := by
  rcases h with ⟨kind, rest, rfl, hkind⟩ | ⟨rest, rfl⟩
  · intro here
    have hstep : (Reading.statement none scope).step ⟨kind, here⟩ =
        (Reading.operand (.statement here scope)).step ⟨kind, here⟩ := by
      cases hkind with
      | operator op => cases op <;> rfl
      | _ => rfl
    rw [hstep]
    exact hnext here here
  · refine fun here => ⟨.functionHead none here scope, rfl, ?_⟩
    obtain ⟨next, hstep, hreads⟩ := hnext here here
    obtain rfl := Except.ok.inj hstep
    exact hreads.of_step fun loc => rfl

/-- What starts like an expression behind `return` is its value. -/
theorem Starts.reads_result {kinds : List Kind} (h : Starts kinds) {scope : Scope} {loc : Location}
    (hnext : Reads goal (.operand (.result loc scope)) kinds) :
    Reads goal (.result loc scope) kinds := by
  rcases h with ⟨kind, rest, rfl, hkind⟩ | ⟨rest, rfl⟩
  · refine hnext.of_step fun here => ?_
    cases hkind with
    | operator op => cases op <;> rfl
    | _ => rfl
  · exact hnext.of_step fun here => rfl

/-! ### Statements -/

/-- Reading the rendering of `s` up to what follows it leads to the scope with `s` in it. -/
def ReadsStmt (whole : Bool) (s : Stmt) : Prop :=
  ∀ (goal : Reading → Prop) (scope : Scope) (kinds : List Kind), Follows kinds →
    (∀ s', s'.unlocated = s.unlocated → Reads goal (.statement none (scope.push s')) kinds) →
    Reads goal (.statement none scope) (s.kinds whole ++ kinds)

/-- Documentation is kept for the statement behind it. -/
theorem reads_doc (doc : Option String) {scope : Scope} {kinds : List Kind}
    (hnext : Reads goal (.statement doc scope) kinds) :
    Reads goal (.statement none scope) (docKinds doc ++ kinds) := by
  cases doc with
  | none => exact hnext
  | some text => exact fun here => ⟨.statement (some text) scope, rfl, hnext⟩

/-- The word before a declaration. -/
theorem reads_declared (constant : Bool) (name : String) {doc : Option String} {scope : Scope}
    {kinds : List Kind} (hnext : ∀ loc, Reads goal (.initial constant name doc loc scope) kinds) :
    Reads goal (.statement doc scope)
      (.keyword (if constant then .constWord else .letWord) :: .identifier name :: kinds) := by
  refine fun here => ⟨.declaredName constant doc scope, ?_, fun loc => ⟨_, rfl, hnext loc⟩⟩
  cases constant <;> rfl

theorem readsStmt_declare {constant : Bool} (hc : constant = false) (name : String)
    (doc : Option String) (loc : Option Location) :
    ReadsStmt whole (.declare constant name none doc loc) := by
  subst hc
  intro goal scope kinds _ hnext
  simp only [Stmt.kinds, List.append_assoc, List.cons_append, List.nil_append]
  refine reads_doc doc (reads_declared false name fun here semicolon => ?_)
  exact ⟨.statement none (scope.push (.declare false name none doc here)), rfl, hnext _ rfl⟩

theorem readsStmt_declare_value (constant : Bool) (name : String) {value : Expr}
    (hv : ReadsExpr whole value) (doc : Option String) (loc : Option Location) :
    ReadsStmt whole (.declare constant name (some value) doc loc) := by
  intro goal scope kinds _ hnext
  simp only [Stmt.kinds, List.append_assoc, List.cons_append, List.nil_append]
  refine reads_doc doc (reads_declared constant name fun here assign => ?_)
  refine ⟨.operand (.initial constant name doc here scope), rfl, ?_⟩
  refine hv.inStatement (by trivial) (by decide) fun value' hvalue semicolon => ?_
  refine ⟨.statement none (scope.push (.declare constant name (some value') doc here)), rfl, ?_⟩
  exact hnext _ (by simp [hvalue])

theorem readsStmt_function (name : String) (parameters : List String) {body : List Stmt}
    (hb : ReadsStmts whole body) (doc : Option String) (loc : Option Location) :
    ReadsStmt whole (.function name parameters body doc loc) := by
  intro goal scope kinds _ hnext
  simp only [Stmt.kinds, List.append_assoc, List.cons_append, List.nil_append]
  refine reads_doc doc fun word => ⟨.functionHead doc word scope, rfl, fun here => ?_⟩
  refine ⟨.parameters (.named name doc here scope), rfl, reads_parameters ?_⟩
  refine hb.inBraces
    (fun body' => .statement none (scope.push (.function name parameters body' doc here)))
    (fun body' => rfl) fun body' hbody => ?_
  exact hnext _ (by simp [hbody])

theorem readsStmt_imports {names : List String} (hn : names.Nodup) (source : String)
    (loc : Option Location) : ReadsStmt whole (.imports names source loc) := by
  intro goal scope kinds _ hnext
  simp only [Stmt.kinds, List.append_assoc, List.cons_append, List.nil_append]
  refine fun here => ⟨.importHead here scope, rfl, fun brace => ⟨_, rfl, ?_⟩⟩
  refine reads_importNames (by exact hn) fun word => ⟨.importSource here names scope, rfl, fun text => ?_⟩
  refine ⟨.statement none (scope.push (.imports names source here)), rfl, fun semicolon => ?_⟩
  exact ⟨_, rfl, hnext _ rfl⟩

theorem readsStmt_loop {condition : Expr} (hc : ReadsExpr whole condition) {body : List Stmt}
    (hb : ReadsStmts whole body) (loc : Option Location) :
    ReadsStmt whole (.loop condition body loc) := by
  intro goal scope kinds _ hnext
  simp only [Stmt.kinds, List.append_assoc, List.cons_append, List.nil_append]
  refine fun here => ⟨.condition .loop here scope, rfl, fun paren => ?_⟩
  refine ⟨.operand (.loopCondition here scope), rfl, ?_⟩
  refine hc.inStatement (by trivial) (by decide) fun condition' hcondition close => ?_
  refine ⟨.block (.loop condition' here [] scope), rfl, ?_⟩
  refine hb.inBraces (fun body' => .statement none (scope.push (.loop condition' body' here)))
    (fun body' => rfl) fun body' hbody => ?_
  exact hnext _ (by simp [hcondition, hbody])

/-- The head and the first branch of a conditional. -/
theorem reads_branch {condition : Expr} (hc : ReadsExpr whole condition) {body : List Stmt}
    (hb : ReadsStmts whole body) {scope : Scope} {kinds : List Kind}
    (hnext : ∀ condition' body' here, condition'.unlocated = condition.unlocated →
      unlocatedStmts body' = unlocatedStmts body →
      Reads goal (.afterBranch ⟨condition', body', here⟩ [] scope) kinds) :
    Reads goal (.statement none scope)
      (.keyword .ifWord :: .mark .openParen :: (enclosed whole (condition.kinds whole) ++
        .mark .closeParen :: .mark .openBrace ::
          (kindsOfStmts whole body ++ .mark .closeBrace :: kinds))) := by
  refine fun here => ⟨.condition (.branch []) here scope, rfl, fun paren => ?_⟩
  refine ⟨.operand (.branchCondition here [] scope), rfl, ?_⟩
  refine hc.inStatement (by trivial) (by decide) fun condition' hcondition close => ?_
  refine ⟨.block (.branch condition' here [] [] scope), rfl, ?_⟩
  exact hb.inBraces (fun body' => .afterBranch ⟨condition', body', here⟩ [] scope)
    (fun body' => rfl) fun body' hbody => hnext condition' body' here hcondition hbody

theorem readsStmt_conditional {condition : Expr} (hc : ReadsExpr whole condition)
    {body : List Stmt} (hb : ReadsStmts whole body) (loc : Option Location) :
    ReadsStmt whole (.conditional condition body none loc) := by
  intro goal scope kinds hfollows hnext
  simp only [Stmt.kinds, List.append_assoc, List.cons_append, List.nil_append]
  refine reads_branch hc hb fun condition' body' here hcondition hbody => ?_
  -- no `else` follows, so the next token already belongs to the scope around
  obtain ⟨kind, rest, rfl, helse⟩ := hfollows
  refine (hnext (.conditional condition' body' none here) ?_).of_step fun here' => ?_
  · simp [hcondition, hbody]
  · exact if_neg helse

theorem readsStmt_conditional_else {condition : Expr} (hc : ReadsExpr whole condition)
    {body : List Stmt} (hb : ReadsStmts whole body) {otherwise : List Stmt}
    (ho : ReadsStmts whole otherwise) (loc : Option Location) :
    ReadsStmt whole (.conditional condition body (some otherwise) loc) := by
  intro goal scope kinds _ hnext
  simp only [Stmt.kinds, List.append_assoc, List.cons_append, List.nil_append]
  refine reads_branch hc hb fun condition' body' here hcondition hbody => ?_
  refine fun word => ⟨.elseHead ⟨condition', body', here⟩ [] scope, rfl, ?_⟩
  have hblock : Reads goal (.block (.otherwise ⟨condition', body', here⟩ [] [] scope))
      (.mark .openBrace :: (kindsOfStmts whole otherwise ++ .mark .closeBrace :: kinds)) := by
    refine ho.inBraces (fun otherwise' => .statement none
      (scope.push (.conditional condition' body' (some otherwise') here)))
      (fun otherwise' => rfl) fun otherwise' hotherwise => ?_
    exact hnext _ (by simp [hcondition, hbody, hotherwise])
  exact hblock.of_step fun brace => rfl

theorem readsStmt_result (loc : Option Location) : ReadsStmt whole (.result none loc) := by
  intro goal scope kinds _ hnext here
  refine ⟨.result here scope, rfl, fun semicolon => ?_⟩
  exact ⟨.statement none (scope.push (.result none here)), rfl, hnext _ rfl⟩

theorem readsStmt_result_value {value : Expr} (hv : ReadsExpr whole value)
    (loc : Option Location) : ReadsStmt whole (.result (some value) loc) := by
  intro goal scope kinds _ hnext
  simp only [Stmt.kinds, List.append_assoc, List.cons_append, List.nil_append]
  refine fun here => ⟨.result here scope, rfl, ?_⟩
  refine ((starts_enclosed value).append _).reads_result ?_
  refine hv.inStatement (by trivial) (by decide) fun value' hvalue semicolon => ?_
  refine ⟨.statement none (scope.push (.result (some value') here)), rfl, ?_⟩
  exact hnext _ (by simp [hvalue])

theorem readsStmt_expression {value : Expr} (hv : ReadsExpr whole value)
    (loc : Option Location) : ReadsStmt whole (.expression value loc) := by
  intro goal scope kinds _ hnext
  simp only [Stmt.kinds, List.append_assoc, List.cons_append, List.nil_append]
  refine ((starts_enclosed value).append _).reads_statement fun here => ?_
  refine hv.inStatement (by trivial) (by decide) fun value' hvalue semicolon => ?_
  refine ⟨.statement none (scope.push (.expression value' here)), rfl, ?_⟩
  exact hnext _ (by simp [hvalue])

/-- No statement starts with `else`. -/
theorem Follows.stmt {kinds : List Kind} (h : Follows kinds) (s : Stmt) :
    Follows (s.kinds whole ++ kinds) := by
  cases s with
  | declare constant name value doc loc =>
      cases doc <;> cases value <;> cases constant <;> exact ⟨_, _, rfl, by simp⟩
  | function name parameters body doc loc => cases doc <;> exact ⟨_, _, rfl, by simp⟩
  | imports names source loc => exact ⟨_, _, rfl, by simp⟩
  | conditional condition body otherwise loc => cases otherwise <;> exact ⟨_, _, rfl, by simp⟩
  | loop condition body loc => exact ⟨_, _, rfl, by simp⟩
  | result value loc => cases value <;> exact ⟨_, _, rfl, by simp⟩
  | expression value loc => exact (((starts_enclosed value).append _).append _).follows
  | foreign body thenBranch elseBranch loc => exact h

theorem Follows.stmts {kinds : List Kind} (h : Follows kinds) (ss : List Stmt) :
    Follows (kindsOfStmts whole ss ++ kinds) := by
  induction ss with
  | nil => exact h
  | cons s rest ih =>
      rw [kindsOfStmts, List.append_assoc]
      exact ih.stmt s

theorem readsStmts_nil : ReadsStmts whole [] := by
  intro goal scope kinds _ hnext
  simpa [Scope.append_nil] using hnext [] rfl

theorem readsStmts_cons {s : Stmt} {rest : List Stmt} (h : ReadsStmt whole s)
    (hrest : ReadsStmts whole rest) : ReadsStmts whole (s :: rest) := by
  intro goal scope kinds hfollows hnext
  rw [kindsOfStmts, List.append_assoc]
  refine h goal scope _ (hfollows.stmts rest) fun s' hs' => ?_
  refine hrest goal (scope.push s') kinds hfollows fun ss' hss' => ?_
  rw [← Scope.append_cons]
  exact hnext (s' :: ss') (by simp [hs', hss'])

/-! ### Programs -/

mutual

/-- A well-formed expression is read from its rendering. -/
theorem readsExpr : (e : Expr) → e.WellFormed → ReadsExpr whole e
  | .number value loc, _ => readsExpr_number value loc
  | .string value loc, _ => readsExpr_string value loc
  | .identifier name loc, _ => readsExpr_identifier name loc
  | .array elements loc, h => readsExpr_array (readsExprs elements h) loc
  | .object properties loc, h => readsExpr_object (readsProperties properties h) loc
  | .lambda parameters body loc, h => readsExpr_lambda parameters (readsStmts body h) loc
  | .call callee arguments loc, h =>
      readsExpr_call (readsExpr callee h.1) (readsExprs arguments h.2) loc
  | .member object name nameLoc loc, h => readsExpr_member (readsExpr object h) name nameLoc loc
  | .index object key loc, h => readsExpr_index (readsExpr object h.1) (readsExpr key h.2) loc
  | .binary op left right loc, h =>
      readsExpr_binary op (readsExpr left h.1) (readsExpr right h.2) loc
  | .unary op operand loc, h => readsExpr_unary op (readsExpr operand h) loc
  | .assign target value loc, h =>
      readsExpr_assign h.1 (readsExpr target h.2.1) (readsExpr value h.2.2) loc

theorem readsExprs : (es : List Expr) → WellFormedExprs es → ReadsExprs whole es
  | [], _ => readsExprs_nil
  | [e], h => readsExprs_single (readsExpr e h.1)
  | e :: below :: rest, h => readsExprs_cons (readsExpr e h.1) (readsExprs (below :: rest) h.2)

theorem readsProperty : (p : Property) → p.WellFormed → ReadsProperty whole p
  | .mk key none loc, _ => readsProperty_short key loc
  | .mk key (some value) loc, h => readsProperty_value key (readsExpr value h) loc

theorem readsProperties : (ps : List Property) → WellFormedProperties ps → ReadsProperties whole ps
  | [], _ => readsProperties_nil
  | [p], h => readsProperties_single (readsProperty p h.1)
  | p :: below :: rest, h =>
      readsProperties_cons (readsProperty p h.1) (readsProperties (below :: rest) h.2)

/-- A well-formed statement is read from its rendering. -/
theorem readsStmt : (s : Stmt) → s.WellFormed → ReadsStmt whole s
  | .declare _ name none doc loc, h => readsStmt_declare h name doc loc
  | .declare constant name (some value) doc loc, h =>
      readsStmt_declare_value constant name (readsExpr value h) doc loc
  | .function name parameters body doc loc, h =>
      readsStmt_function name parameters (readsStmts body h) doc loc
  | .imports _ source loc, h => readsStmt_imports h source loc
  | .conditional condition body none loc, h =>
      readsStmt_conditional (readsExpr condition h.1) (readsStmts body h.2) loc
  | .conditional condition body (some otherwise) loc, h =>
      readsStmt_conditional_else (readsExpr condition h.1) (readsStmts body h.2.1)
        (readsStmts otherwise h.2.2) loc
  | .loop condition body loc, h => readsStmt_loop (readsExpr condition h.1) (readsStmts body h.2) loc
  | .result none loc, _ => readsStmt_result loc
  | .result (some value) loc, h => readsStmt_result_value (readsExpr value h) loc
  | .expression value loc, h => readsStmt_expression (readsExpr value h) loc
  | .foreign _ _ _ _, h => absurd h id

theorem readsStmts : (ss : List Stmt) → WellFormedStmts ss → ReadsStmts whole ss
  | [], _ => readsStmts_nil
  | s :: rest, h => readsStmts_cons (readsStmt s h.1) (readsStmts rest h.2)

end

/-- The canonical rendering of a well-formed program is read as that program, but for locations. -/
theorem programOf_kinds {p : Program} (h : p.WellFormed) {tokens : List Token}
    (ht : tokens.map Token.kind = p.kinds whole) :
    ∃ q, programOf tokens = .ok q ∧ q.unlocated = p.unlocated := by
  have hreads : Reads (fun r => ∃ q, r = .complete q ∧ q.unlocated = p.unlocated)
      (Reading.start tokens) (tokens.map Token.kind) := by
    have hend : Follows [Kind.eof] := ⟨_, _, rfl, by decide⟩
    rw [ht]
    refine readsStmts p.body h _ _ _ hend fun body hbody here => ⟨_, rfl, _, rfl, ?_⟩
    simpa [Program.unlocated] using hbody
  obtain ⟨r, hall, q, rfl, hq⟩ := hreads.takeAll
  refine ⟨q, ?_, hq⟩
  rw [programOf, hall]
  rfl

/-- A program that was read is well formed, and a well-formed program is read from its canonical
rendering, but for locations.  The rendering may have whole expressions in parentheses or not. -/
theorem read_wellFormed_and_rendering :
    (∀ (source : String) (file : Option String) (p : Program),
      read source file = .ok p → p.WellFormed) ∧
    ∀ (p : Program) (whole : Bool) (tokens : List Token) (source : String) (file : Option String),
      p.WellFormed → tokens.map Token.kind = p.kinds whole →
        ∃ q, readTokens tokens source file = .ok q ∧ q.unlocated = p.unlocated := by
  constructor
  · intro source file p h
    rw [read] at h
    cases htokens : Token.tokenize source file with
    | error failure => simp [htokens, bind, Except.bind] at h
    | ok tokens =>
        simp only [htokens, bind, Except.bind, readTokens] at h
        cases hprogram : programOf tokens with
        | error misfit =>
            rw [hprogram] at h
            cases h
        | ok q =>
            rw [hprogram] at h
            obtain rfl : q = p := Except.ok.inj h
            exact wellFormed_of_programOf hprogram
  · intro p whole tokens source file h ht
    obtain ⟨q, hprogram, hq⟩ := programOf_kinds h ht
    refine ⟨q, ?_, hq⟩
    rw [readTokens, hprogram]
    rfl

/-- A constant with a function that assigns to a member: the text is read as a well-formed program, and
that program is read again from its rendering. -/
theorem read_member_assignment :
    ∃ p, read "const f = fn (a) \x7b a.b[!a] = -a; \x7d" none = .ok p ∧ p.WellFormed ∧
      ∃ q, readTokens ((p.kinds true).map (⟨·, .start none⟩)) "" none = .ok q ∧
        q.unlocated = p.unlocated := by
  have hread : (read "const f = fn (a) \x7b a.b[!a] = -a; \x7d" none).toOption.isSome = true := by
    decide +kernel
  cases h : read "const f = fn (a) \x7b a.b[!a] = -a; \x7d" none with
  | error failure => simp [h, Except.toOption] at hread
  | ok p =>
      have hp := read_wellFormed_and_rendering.1 _ _ p h
      have hkinds : ((p.kinds true).map (⟨·, Location.start none⟩)).map Token.kind = p.kinds true := by
        simp [Function.comp_def]
      exact ⟨p, rfl, hp, read_wellFormed_and_rendering.2 p true _ "" none hp hkinds⟩

end ScriptLens.Syntax
