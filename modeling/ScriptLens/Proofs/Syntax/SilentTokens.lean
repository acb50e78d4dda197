import ScriptLens.Proofs.Syntax.Relocation

/-!
# Tokens that change nothing

A semicolon means nothing where one statement has ended and the next token does not go on with it (`Reading.ended?`),
and documentation means nothing where no declaration follows (`takesDoc`).  Lists of tokens that differ in such
tokens only are read alike.

Main statement: `ReadAlike.takeAll`.
-/

namespace ScriptLens.Syntax

/-! ### Where a statement has ended -/

/-- Whether a token after an operand goes on with the expression. -/
def continuesExpr : Kind → Bool
  | .mark .openParen | .mark .openBracket | .mark .dot | .mark .assign => true
  | .mark m => m.binary?.isSome
  | _ => false

/-- The scope after the statement that an expression ends, if the expression ends a statement. -/
def Hole.ended? (e : Expr) : Hole → Option Scope
  | .statement loc outer => some (outer.push (.expression e loc))
  | .initial constant name doc loc outer =>
      some (outer.push (.declare constant name (some e) doc loc))
  | .result loc outer => some (outer.push (.result (some e) loc))
  | .operand op loc outer => outer.ended? (.unary op e loc)
  | .right left op outer => outer.ended? (.binary op left e left.location)
  | .assigned target outer => outer.ended? (.assign target e target.location)
  | _ => none

/-- The scope after the last statement, if that statement has ended before a token of the given kind. -/
def Reading.ended? (next : Kind) : Reading → Option Scope
  | .statement none scope => some scope
  | .operator left hole => if continuesExpr next then none else hole.ended? left
  | .initial false name doc loc scope =>
      if next = .mark .assign then none else some (scope.push (.declare false name none doc loc))
  | .result loc scope =>
      if next ∈ [.eof, .mark .semicolon, .mark .closeBrace] then
        some (scope.push (.result none loc))
      else none
  | .afterBranch last chain scope =>
      if next = .keyword .elseWord then none else some (scope.pushChain last none chain)
  | _ => none

theorem Hole.fill_of_ended? {e : Expr} {hole : Hole} {scope : Scope}
    (h : hole.ended? e = some scope) (t : Token) : hole.fill e t = scope.begin none t := by
  fun_induction Hole.ended? e hole with
  | case1 | case2 | case3 =>
      obtain rfl := Option.some.inj h
      rfl
  | case4 e op loc outer ih => exact ih h
  | case5 e left op outer ih => exact ih h
  | case6 e target outer ih => exact ih h
  | case7 => cases h

theorem Hole.extend_of_not_continuesExpr {hole : Hole} {left : Expr} {t : Token}
    (h : continuesExpr t.kind = false) : hole.extend left t = hole.fill left t := by
  obtain ⟨kind, loc⟩ := t
  cases kind with
  | mark m => cases m <;> first | rfl | cases h
  | _ => rfl

/-- Where a statement has ended, the next token starts another one. -/
theorem Reading.step_of_ended? {r : Reading} {t : Token} {scope : Scope}
    (h : r.ended? t.kind = some scope) : r.step t = scope.begin none t := by
  revert h
  fun_cases Reading.ended? t.kind r with
  | case1 scope =>
      intro h
      obtain rfl := Option.some.inj h
      rfl
  | case3 left hole hnot =>
      intro h
      rw [step, Hole.extend_of_not_continuesExpr (by simpa using hnot), Hole.fill_of_ended? h]
  | case5 name doc loc scope hassign =>
      intro h
      obtain rfl := Option.some.inj h
      simp [step, hassign]
  | case6 loc scope hnext =>
      intro h
      obtain rfl := Option.some.inj h
      obtain ⟨kind, place⟩ := t
      simp only [List.mem_cons, List.not_mem_nil, or_false] at hnext
      rcases hnext with rfl | rfl | rfl <;> rfl
  | case9 last chain scope helse =>
      intro h
      obtain rfl := Option.some.inj h
      simp [step, helse]
  | _ =>
      intro h
      cases h

/-- Where a statement has ended, a semicolon may stand. -/
theorem Reading.ended?_semicolon {r : Reading} {next : Kind} {scope : Scope}
    (h : r.ended? next = some scope) : r.ended? (.mark .semicolon) = some scope := by
  revert h
  fun_cases Reading.ended? next r with
  | case1 scope => exact id
  | case3 left hole hnot => exact id
  | case5 name doc loc scope hassign => exact id
  | case6 loc scope hnext => exact id
  | case9 last chain scope helse => exact id
  | _ =>
      intro h
      cases h

theorem Reading.step_semicolon {r : Reading} {next : Kind} {scope : Scope}
    (h : r.ended? next = some scope) {t : Token} (ht : t.kind = .mark .semicolon) :
    r.step t = .ok (.statement none scope) := by
  have hended : r.ended? t.kind = some scope := by
    rw [ht]
    exact ended?_semicolon h
  rw [step_of_ended? hended, Scope.begin, ht]
  rfl

/-! ### Documentation that nothing takes -/

/-- Whether tokens of the given kinds may take the documentation before them: a variable or a named function is
declared there.  A list that ends may go on with anything. -/
def takesDoc : List Kind → Bool
  | .keyword .letWord :: _ | .keyword .constWord :: _ => true
  | .keyword .fnWord :: .identifier _ :: _ => true
  | [.keyword .fnWord] | [] => true
  | _ => false

theorem Hole.fill_doc (e : Expr) : (hole : Hole) →
    (∃ scope, ∀ (t : Token) (text : String), t.kind = .doc text →
      hole.fill e t = .ok (.statement (some text) scope)) ∨
    ∃ result, ∀ (t : Token) (text : String), t.kind = .doc text → hole.fill e t = result
  | .statement _ _ | .initial _ _ _ _ _ | .result _ _ =>
      Or.inl ⟨_, fun t text ht => by rw [fill, Scope.begin, ht]⟩
  | .branchCondition _ _ _ | .loopCondition _ _ =>
      Or.inr ⟨.error .conditionEnd, fun t text ht => by simp [fill, ht]⟩
  | .parenthesis _ => Or.inr ⟨.error .parenthesisEnd, fun t text ht => by simp [fill, ht]⟩
  | .element _ _ _ => Or.inr ⟨.error .arrayEnd, fun t text ht => by simp [fill, ht]⟩
  | .property _ _ _ _ _ => Or.inr ⟨.error .objectEnd, fun t text ht => by simp [fill, afterEntry, ht]⟩
  | .argument _ _ _ => Or.inr ⟨.error .argumentsEnd, fun t text ht => by simp [fill, ht]⟩
  | .key _ _ => Or.inr ⟨.error .indexEnd, fun t text ht => by simp [fill, ht]⟩
  | .operand op loc outer => fill_doc (.unary op e loc) outer
  | .right left op outer => fill_doc (.binary op left e left.location) outer
  | .assigned target outer => fill_doc (.assign target e target.location) outer

/-- Documentation waits for a declaration where a statement may start, and anywhere else it does not matter what it
says. -/
theorem Reading.step_doc (r : Reading) :
    (∃ scope, ∀ (t : Token) (text : String), t.kind = .doc text →
      r.step t = .ok (.statement (some text) scope)) ∨
    ∃ result, ∀ (t : Token) (text : String), t.kind = .doc text → r.step t = result := by
  cases r with
  | statement doc scope => exact Or.inl ⟨scope, fun t text ht => by rw [step, Scope.begin, ht]⟩
  | operator left hole =>
      have hextend : ∀ (t : Token) (text : String), t.kind = .doc text →
          hole.extend left t = hole.fill left t :=
        fun t text ht => Hole.extend_of_not_continuesExpr (by rw [ht]; rfl)
      rcases Hole.fill_doc left hole with ⟨scope, hscope⟩ | ⟨result, hresult⟩
      · exact Or.inl ⟨scope, fun t text ht => (hextend t text ht).trans (hscope t text ht)⟩
      · exact Or.inr ⟨result, fun t text ht => (hextend t text ht).trans (hresult t text ht)⟩
  | initial constant name doc loc scope =>
      cases constant with
      | false => exact Or.inl ⟨_, fun t text ht => by simp [step, Scope.begin, ht]; rfl⟩
      | true => exact Or.inr ⟨.error .constantValue, fun t text ht => by simp [step, ht]⟩
  | afterBranch last chain scope =>
      exact Or.inl ⟨_, fun t text ht => by simp [step, Scope.begin, ht]; rfl⟩
  | condition guard loc scope =>
      cases guard with
      | branch chain => exact Or.inr ⟨.error (.conditionStart .ifWord), fun t text ht => by simp [step, ht]⟩
      | loop => exact Or.inr ⟨.error (.conditionStart .whileWord), fun t text ht => by simp [step, ht]⟩
  | operand hole => exact Or.inr ⟨.error .expression, fun t text ht => by simp [step, Hole.begin, ht]⟩
  | argument callee done hole =>
      exact Or.inr ⟨.error .expression, fun t text ht => by simp [step, Hole.begin, ht]⟩
  | element loc done hole =>
      exact Or.inr ⟨.error .expression, fun t text ht => by simp [step, Hole.begin, ht]⟩
  | result loc scope =>
      exact Or.inr ⟨.error .expression, fun t text ht => by simp [step, Hole.begin, ht]⟩
  | key loc done hole => exact Or.inr ⟨.error .propertyName, fun t text ht => by simp [step, ht]⟩
  | value loc done name nameLoc hole =>
      exact Or.inr ⟨.error .objectEnd, fun t text ht => by simp [step, afterEntry, ht]⟩
  | memberName object hole => exact Or.inr ⟨.error .memberName, fun t text ht => by simp [step, ht]⟩
  | importHead loc scope => exact Or.inr ⟨.error .importName, fun t text ht => by simp [step, ht]⟩
  | importName loc names scope => exact Or.inr ⟨.error .importName, fun t text ht => by simp [step, ht]⟩
  | importNext loc names scope => exact Or.inr ⟨.error .importEnd, fun t text ht => by simp [step, ht]⟩
  | importFrom loc names scope => exact Or.inr ⟨.error .fromWord, fun t text ht => by simp [step, ht]⟩
  | importSource loc names scope =>
      exact Or.inr ⟨.error .importSource, fun t text ht => by simp [step, ht]⟩
  | declaredName constant doc scope =>
      exact Or.inr ⟨.error .variableName, fun t text ht => by simp [step, ht]⟩
  | functionHead doc loc scope =>
      exact Or.inr ⟨.error .parametersStart, fun t text ht => by simp [step, Callable.begin, ht]⟩
  | parameters owner =>
      exact Or.inr ⟨.error .parametersStart, fun t text ht => by simp [step, Callable.begin, ht]⟩
  | parameterName owner names =>
      exact Or.inr ⟨.error .parameterName, fun t text ht => by simp [step, ht]⟩
  | parameterNext owner names =>
      exact Or.inr ⟨.error .parametersEnd, fun t text ht => by simp [step, ht]⟩
  | block inner => exact Or.inr ⟨.error .blockStart, fun t text ht => by simp [step, Scope.enter, ht]⟩
  | elseHead last chain scope =>
      exact Or.inr ⟨.error .blockStart, fun t text ht => by simp [step, Scope.enter, ht]⟩
  | complete program => exact Or.inr ⟨.ok (.complete program), fun t text ht => rfl⟩

/-- It does not matter what documentation says that nothing takes. -/
theorem Reading.takeAll_of_not_takesDoc {ts : List Token} (h : takesDoc (ts.map Token.kind) = false)
    (a b : String) (scope : Scope) :
    (Reading.statement (some a) scope).takeAll ts = (Reading.statement (some b) scope).takeAll ts := by
  cases ts with
  | nil => cases h
  | cons t ts =>
      obtain ⟨kind, loc⟩ := t
      rw [takeAll, takeAll, take, take]
      cases kind with
      | keyword word =>
          cases word with
          | letWord | constWord => cases h
          | fnWord =>
              cases ts with
              | nil => cases h
              | cons u us =>
                  obtain ⟨kind, place⟩ := u
                  cases kind with
                  | identifier name => cases h
                  | _ => rfl
          | _ => rfl
      | mark m => cases m <;> rfl
      | _ => rfl

/-! ### Lists that are read alike -/

/-- What takes a list of tokens takes the first of them. -/
theorem Reading.exists_step {r q : Reading} {t : Token} {ts : List Token}
    (h : r.takeAll (t :: ts) = .ok q) : ∃ s, r.step t = .ok s ∧ s.takeAll ts = .ok q := by
  rw [Reading.takeAll, Reading.take] at h
  cases hstep : r.step t with
  | error complaint =>
      rw [hstep] at h
      cases h
  | ok s =>
      rw [hstep] at h
      exact ⟨s, rfl, h⟩

/-- What takes a list of tokens takes the last of them last. -/
theorem Reading.exists_concat {r q : Reading} {init : List Token} {last : Token}
    (h : r.takeAll (init ++ [last]) = .ok q) : ∃ s, r.takeAll init = .ok s ∧ s.step last = .ok q := by
  rw [Reading.takeAll_append] at h
  cases hall : r.takeAll init with
  | error misfit =>
      rw [hall] at h
      cases h
  | ok s =>
      rw [hall] at h
      obtain ⟨next, hstep, hnext⟩ := Reading.exists_step h
      obtain rfl : next = q := Except.ok.inj hnext
      exact ⟨s, rfl, hstep⟩

/-- A semicolon or documentation is silent before a token that is taken the same with it as without it. -/
structure Silent (r : Reading) (t next : Token) : Prop where
  kind : t.kind = .mark .semicolon ∨ ∃ text, t.kind = .doc text
  step : ∃ s, r.step t = .ok s ∧ s.step next = r.step next

/-- Two lists of tokens are the same, locations aside, up to tokens that are silent where they stand and to what
documentation says that nothing takes. -/
inductive ReadAlike : Reading → List Token → List Token → Prop
  | done (r : Reading) : ReadAlike r [] []
  | keep {r s : Reading} {t t' : Token} {ts ts' : List Token} (hkind : t'.kind = t.kind)
      (hstep : r.step t = .ok s) (hrest : ReadAlike s ts ts') : ReadAlike r (t :: ts) (t' :: ts')
  | add {r : Reading} {t next : Token} {ts ts' : List Token} (hsilent : Silent r t next)
      (hrest : ReadAlike r ts (next :: ts')) : ReadAlike r ts (t :: next :: ts')
  | drop {r : Reading} {t next : Token} {ts ts' : List Token} (hsilent : Silent r t next)
      (hrest : ReadAlike r (next :: ts) ts') : ReadAlike r (t :: next :: ts) ts'
  | reword {r s : Reading} {t t' : Token} {text text' : String} {ts ts' : List Token}
      (ht : t.kind = .doc text) (ht' : t'.kind = .doc text') (hstep : r.step t = .ok s)
      (htakes : takesDoc (ts.map Token.kind) = false)
      (htakes' : takesDoc (ts'.map Token.kind) = false) (hrest : ReadAlike s ts ts') :
      ReadAlike r (t :: ts) (t' :: ts')

/-- Lists that are read alike lead to the same, if all locations are made the same. -/
theorem ReadAlike.takeAll {r : Reading} {ts ts' : List Token} (h : ReadAlike r ts ts')
    (loc : Location) :
    (r.relocate fun _ => loc).takeAll (ts'.map (Token.relocate fun _ => loc)) =
      (r.relocate fun _ => loc).takeAll (ts.map (Token.relocate fun _ => loc)) := by
  have hmoved : ∀ {r s : Reading} {t : Token}, r.step t = .ok s →
      (r.relocate fun _ => loc).step (t.relocate fun _ => loc) =
        .ok (s.relocate fun _ => loc) := by
    intro r s t hstep
    rw [Reading.step_relocate, hstep]
    rfl
  -- A silent token at the front of a list can be left out.
  have hleft : ∀ {r : Reading} {t next : Token} (ts : List Token), Silent r t next →
      (r.relocate fun _ => loc).takeAll ((t :: next :: ts).map (Token.relocate fun _ => loc)) =
        (r.relocate fun _ => loc).takeAll ((next :: ts).map (Token.relocate fun _ => loc)) := by
    rintro r t next ts ⟨-, s, hstep, hsame⟩
    have hnext := congrArg (Except.map (Reading.relocate fun _ => loc)) hsame
    rw [← Reading.step_relocate, ← Reading.step_relocate] at hnext
    have htaken : (r.relocate fun _ => loc).takeAll
        ((t :: next :: ts).map (Token.relocate fun _ => loc)) =
          (s.relocate fun _ => loc).takeAll ((next :: ts).map (Token.relocate fun _ => loc)) := by
      rw [List.map_cons, Reading.takeAll, Reading.take, hmoved hstep]
      rfl
    rw [htaken, List.map_cons, Reading.takeAll, Reading.takeAll, Reading.take, Reading.take, hnext]
  induction h with
  | done r => rfl
  | @keep r s t t' ts ts' hkind hstep hrest ih =>
      have hsame : t'.relocate (fun _ => loc) = t.relocate fun _ => loc := by
        rw [Token.relocate, Token.relocate, hkind]
      rw [List.map_cons, List.map_cons, hsame, Reading.takeAll, Reading.takeAll, Reading.take,
        hmoved hstep]
      exact ih
  | add hsilent hrest ih => exact (hleft _ hsilent).trans ih
  | drop hsilent hrest ih => exact ih.trans (hleft _ hsilent).symm
  | @reword r s t t' text text' ts ts' ht ht' hstep htakes htakes' hrest ih =>
      have hdoc := hmoved hstep
      have hdoc' : ∃ s', (r.relocate fun _ => loc).step (t'.relocate fun _ => loc) = .ok s' ∧
          s'.takeAll (ts'.map (Token.relocate fun _ => loc)) =
            (s.relocate fun _ => loc).takeAll (ts'.map (Token.relocate fun _ => loc)) := by
        rcases (r.relocate fun _ => loc).step_doc with ⟨scope, hscope⟩ | ⟨result, hresult⟩
        · refine ⟨_, hscope (t'.relocate _) text' ht', ?_⟩
          rw [← Except.ok.inj ((hscope (t.relocate _) text ht).symm.trans hdoc)]
          refine Reading.takeAll_of_not_takesDoc ?_ text' text scope
          rwa [List.map_map]
        · exact ⟨_, ((hresult (t'.relocate _) text' ht').trans
            (hresult (t.relocate _) text ht).symm).trans hdoc, rfl⟩
      obtain ⟨s', hstep', hsame⟩ := hdoc'
      rw [List.map_cons, List.map_cons, Reading.takeAll, Reading.takeAll, Reading.take, Reading.take,
        hstep', hdoc]
      exact hsame.trans ih

end ScriptLens.Syntax
