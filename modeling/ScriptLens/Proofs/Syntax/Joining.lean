import ScriptLens.Proofs.Syntax.CorrectPrefix
import ScriptLens.Proofs.Syntax.Recent
import ScriptLens.Proofs.Token.Joining

/-!
# Joining programs

What was read of a program before its last finished statement has no say in how the rest is read: it stands in
the outermost scope, and a statement is only ever added behind it.  So two texts that can be read, with a
semicolon on a line of its own between them, are read as the statements of both.

Main statements: `Reading.step_onto` and `read_joined`.
-/

namespace ScriptLens.Syntax

/-! ### Statements before all others -/

variable (front : List Stmt) (place : Option Location)

mutual

/-- A scope in a program that started with other statements, at another place. -/
@[simp] def Scope.onto : Scope → Scope
  | .program done _ => .program (front ++ done) place
  | .function name parameters doc loc done outer =>
      .function name parameters doc loc done outer.onto
  | .lambda parameters loc done outer => .lambda parameters loc done outer.onto
  | .branch condition loc chain done outer => .branch condition loc chain done outer.onto
  | .otherwise last chain done outer => .otherwise last chain done outer.onto
  | .loop condition loc done outer => .loop condition loc done outer.onto

/-- A place for an expression in such a program. -/
@[simp] def Hole.onto : Hole → Hole
  | .statement loc outer => .statement loc outer.onto
  | .initial constant name doc loc outer => .initial constant name doc loc outer.onto
  | .result loc outer => .result loc outer.onto
  | .branchCondition loc chain outer => .branchCondition loc chain outer.onto
  | .loopCondition loc outer => .loopCondition loc outer.onto
  | .parenthesis outer => .parenthesis outer.onto
  | .element loc done outer => .element loc done outer.onto
  | .property loc done name nameLoc outer => .property loc done name nameLoc outer.onto
  | .argument callee done outer => .argument callee done outer.onto
  | .key object outer => .key object outer.onto
  | .operand op loc outer => .operand op loc outer.onto
  | .right left op outer => .right left op outer.onto
  | .assigned target outer => .assigned target outer.onto

end

/-- A function in such a program. -/
@[simp] def Callable.onto : Callable → Callable
  | .named name doc loc outer => .named name doc loc (outer.onto front place)
  | .anonymous loc outer => .anonymous loc (outer.onto front place)

/-- What was read of such a program. -/
@[simp] def Reading.onto : Reading → Reading
  | .statement doc scope => .statement doc (scope.onto front place)
  | .operand hole => .operand (hole.onto front place)
  | .operator left hole => .operator left (hole.onto front place)
  | .argument callee done hole => .argument callee done (hole.onto front place)
  | .element loc done hole => .element loc done (hole.onto front place)
  | .key loc done hole => .key loc done (hole.onto front place)
  | .value loc done name nameLoc hole => .value loc done name nameLoc (hole.onto front place)
  | .memberName object hole => .memberName object (hole.onto front place)
  | .importHead loc scope => .importHead loc (scope.onto front place)
  | .importName loc names scope => .importName loc names (scope.onto front place)
  | .importNext loc names scope => .importNext loc names (scope.onto front place)
  | .importFrom loc names scope => .importFrom loc names (scope.onto front place)
  | .importSource loc names scope => .importSource loc names (scope.onto front place)
  | .declaredName constant doc scope => .declaredName constant doc (scope.onto front place)
  | .initial constant name doc loc scope =>
      .initial constant name doc loc (scope.onto front place)
  | .functionHead doc loc scope => .functionHead doc loc (scope.onto front place)
  | .parameters owner => .parameters (owner.onto front place)
  | .parameterName owner names => .parameterName (owner.onto front place) names
  | .parameterNext owner names => .parameterNext (owner.onto front place) names
  | .condition guard loc scope => .condition guard loc (scope.onto front place)
  | .block inner => .block (inner.onto front place)
  | .afterBranch last chain scope => .afterBranch last chain (scope.onto front place)
  | .elseHead last chain scope => .elseHead last chain (scope.onto front place)
  | .result loc scope => .result loc (scope.onto front place)
  | .complete program => .complete ⟨front ++ program.body, place⟩

@[simp] theorem Scope.onto_push (s : Stmt) (scope : Scope) :
    (scope.push s).onto front place = (scope.onto front place).push s := by
  cases scope <;> simp [push]

@[simp] theorem Scope.onto_pushChain (scope : Scope) (last : Branch)
    (otherwise : Option (List Stmt)) (chain : List Branch) :
    (scope.pushChain last otherwise chain).onto front place =
      (scope.onto front place).pushChain last otherwise chain :=
  onto_push front place _ scope

@[simp] theorem onto_afterOperand (e : Expr) (hole : Hole) :
    (afterOperand e hole).onto front place = afterOperand e (hole.onto front place) := by
  fun_induction afterOperand e hole with
  | case1 e op loc outer ih => exact ih
  | case2 e hole hother => cases hole <;> first | rfl | exact absurd rfl (hother _ _ _)

@[simp] theorem absorb_onto (precedence : Nat) (e : Expr) (hole : Hole) :
    absorb precedence e (hole.onto front place) =
      ((absorb precedence e hole).1, (absorb precedence e hole).2.onto front place) := by
  fun_induction absorb precedence e hole with
  | case1 e left op outer hle ih =>
      rw [← ih]
      simp [absorb, hle]
  | case2 e left op outer hgt => simp [absorb, hgt]
  | case3 e hole hother => cases hole <;> first | rfl | exact absurd rfl (hother _ _ _)

/-! ### One token -/

theorem Scope.close_onto (scope : Scope) :
    (scope.onto front place).close = scope.close.map (Reading.onto front place) := by
  cases scope with
  | lambda parameters loc done outer =>
      simp only [onto, close, Except.map, onto_afterOperand]
  | _ => simp [close, Except.map]

theorem Scope.finish_onto (scope : Scope) :
    (scope.onto front place).finish = scope.finish.map (Reading.onto front place) := by
  cases scope <;> rfl

theorem Hole.begin_onto (hole : Hole) (t : Token) :
    (hole.onto front place).begin t = (hole.begin t).map (Reading.onto front place) := by
  simp only [Hole.begin]
  split <;> simp only [Except.map, onto_afterOperand] <;> rfl

theorem Scope.begin_onto (scope : Scope) (doc : Option String) (t : Token) :
    (scope.onto front place).begin doc t =
      (scope.begin doc t).map (Reading.onto front place) := by
  have hstatement := Hole.begin_onto front place (.statement t.location scope) t
  rw [Hole.onto] at hstatement
  simp only [Scope.begin]
  split <;> first
    | exact hstatement
    | rfl
    | simp only [close_onto, finish_onto]
    | (split <;> rfl)

theorem Callable.scope_onto (owner : Callable) (parameters : List String) :
    (owner.scope parameters).onto front place = (owner.onto front place).scope parameters := by
  cases owner <;> simp [scope]

theorem Callable.begin_onto (owner : Callable) (t : Token) :
    (owner.onto front place).begin t = (owner.begin t).map (Reading.onto front place) := by
  simp only [Callable.begin, apply_ite (Except.map _)]
  rfl

theorem Scope.enter_onto (inner : Scope) (t : Token) :
    (inner.onto front place).enter t = (inner.enter t).map (Reading.onto front place) := by
  simp only [Scope.enter, apply_ite (Except.map _)]
  rfl

theorem afterEntry_onto (loc : Location) (done : List Property) (hole : Hole) (t : Token) :
    afterEntry loc done (hole.onto front place) t =
      (afterEntry loc done hole t).map (Reading.onto front place) := by
  simp only [afterEntry]
  split
  · rfl
  · simp only [Except.map, onto_afterOperand]
  · rfl

theorem Hole.fill_onto (e : Expr) (t : Token) (hole : Hole) :
    (hole.onto front place).fill e t = (hole.fill e t).map (Reading.onto front place) := by
  fun_induction Hole.fill e t hole with
  | case1 | case2 | case3 =>
      rw [← Scope.begin_onto, Scope.onto_push]
      rfl
  | case8 | case11 =>
      simp only [Except.map, onto_afterOperand]
      simp [fill, *]
  | case13 => exact afterEntry_onto front place _ _ _ t
  | case19 e op loc outer ih => exact ih
  | case20 e left op outer ih => exact ih
  | case21 e target outer ih => exact ih
  | _ => simp [fill, Except.map, *]

theorem Hole.extend_onto (hole : Hole) (e : Expr) (t : Token) :
    (hole.onto front place).extend e t = (hole.extend e t).map (Reading.onto front place) := by
  simp only [Hole.extend, absorb_onto, fill_onto]
  split <;> try rfl
  · split <;> rfl
  · split <;> rfl

/-- One token is read as it is without the statements before all others. -/
theorem Reading.step_onto (r : Reading) (t : Token) :
    (r.onto front place).step t = (r.step t).map (Reading.onto front place) := by
  cases r with
  | statement doc scope => exact Scope.begin_onto front place scope doc t
  | operand hole => exact Hole.begin_onto front place hole t
  | operator left hole => exact Hole.extend_onto front place hole left t
  | argument callee done hole =>
      have h := Hole.begin_onto front place (.argument callee done hole) t
      rw [Hole.onto] at h
      simp only [onto, step, h, apply_ite (Except.map _)]
      rfl
  | element loc done hole =>
      have h := Hole.begin_onto front place (.element loc done hole) t
      rw [Hole.onto] at h
      simp only [onto, step, h, apply_ite (Except.map _)]
      simp only [Except.map, onto_afterOperand]
  | key loc done hole =>
      simp only [onto, step]
      split <;> simp only [Except.map, onto_afterOperand] <;> rfl
  | value loc done name nameLoc hole =>
      have h := afterEntry_onto front place loc (done ++ [.mk name none nameLoc]) hole t
      simp only [onto, step, apply_ite (Except.map _), ← h]
      rfl
  | initial constant name doc loc scope =>
      have h := Scope.begin_onto front place (scope.push (.declare constant name none doc loc)) none t
      rw [Scope.onto_push] at h
      simp only [onto, step, apply_ite (Except.map _), ← h]
      rfl
  | functionHead doc loc scope =>
      have h := Callable.begin_onto front place (.anonymous loc (.statement loc scope)) t
      simp only [onto, step]
      split <;> first | rfl | exact h
  | parameters owner => exact Callable.begin_onto front place owner t
  | parameterName owner names | parameterNext owner names =>
      simp only [onto, step]
      split <;> simp [Except.map, Callable.scope_onto]
  | condition guard loc scope =>
      cases guard <;> simp only [onto, step, apply_ite (Except.map _)] <;> rfl
  | block inner => exact Scope.enter_onto front place inner t
  | afterBranch last chain scope =>
      have h := Scope.begin_onto front place (scope.pushChain last none chain) none t
      rw [Scope.onto_pushChain] at h
      simp only [onto, step, apply_ite (Except.map _), ← h]
      rfl
  | elseHead last chain scope =>
      have h := Scope.enter_onto front place (.otherwise last chain [] scope) t
      simp only [onto, step, apply_ite (Except.map _), ← h]
      rfl
  | result loc scope =>
      have hnone := Scope.begin_onto front place (scope.push (.result none loc)) none t
      have hvalue := Hole.begin_onto front place (.result loc scope) t
      rw [Scope.onto_push] at hnone
      simp only [onto, step]
      split <;> first | exact hnone | exact hvalue
  | importFrom loc names scope =>
      simp only [onto, step, apply_ite (Except.map _)]
      rfl
  | complete program => rfl
  | _ =>
      simp only [onto, step]
      split <;> simp [Except.map]

theorem Reading.takeAll_onto (r : Reading) (tokens : List Token) :
    (r.onto front place).takeAll tokens =
      (r.takeAll tokens).map (Reading.onto front place) := by
  induction tokens generalizing r with
  | nil => rfl
  | cons t ts ih =>
      rw [takeAll, takeAll, take, take, step_onto]
      cases r.step t with
      | error e => rfl
      | ok s => exact ih s

/-! ### The end of a program -/

theorem Scope.eq_program_of_finish {scope : Scope} {p : Program}
    (h : scope.finish = .ok (.complete p)) : scope = .program p.body p.location := by
  cases scope <;> cases h
  rfl

theorem Hole.ended?_of_fill {hole : Hole} {e : Expr} {loc : Location} {p : Program}
    (h : hole.fill e ⟨.eof, loc⟩ = .ok (.complete p)) :
    hole.ended? e = some (.program p.body p.location) := by
  fun_induction Hole.fill e ⟨.eof, loc⟩ hole with
  | case1 | case2 | case3 => exact congrArg some (Scope.eq_program_of_finish h)
  | case19 e op here outer ih => exact ih h
  | case20 e left op outer ih => exact ih h
  | case21 e target outer ih => exact ih h
  | case4 | case6 | case8 | case10 | case11 | case14 | case15 | case17 => contradiction
  | _ => cases h

/-- Where the text may end, the last statement has ended, unless documentation was the last to be read. -/
theorem Reading.ended?_of_complete {r : Reading} {loc : Location} {p : Program}
    (hdoc : r.recent.doc = none) (hended : r.recent.ended = false)
    (h : r.step ⟨.eof, loc⟩ = .ok (.complete p)) :
    r.ended? .eof = some (.program p.body p.location) := by
  cases r with
  | statement doc scope =>
      obtain rfl : doc = none := hdoc
      exact congrArg some (Scope.eq_program_of_finish h)
  | operator left hole => exact Hole.ended?_of_fill h
  | initial constant name doc here scope =>
      cases constant with
      | true => cases h
      | false => exact congrArg some (Scope.eq_program_of_finish h)
  | afterBranch last chain scope => exact congrArg some (Scope.eq_program_of_finish h)
  | result here scope => exact congrArg some (Scope.eq_program_of_finish h)
  | complete program => cases hended
  | condition guard here scope => cases guard <;> cases h
  | _ => cases h

/-! ### Two programs -/

variable {front place}

theorem Ended.relocate {tokens : List Token} (h : Ended tokens) (f : Location → Location) :
    Ended (tokens.map (Token.relocate f)) := by
  obtain ⟨init, last, rfl, hlast, hinit⟩ := h
  refine ⟨init.map (Token.relocate f), last.relocate f, by simp, hlast, ?_⟩
  intro t ht
  obtain ⟨u, hu, rfl⟩ := List.mem_map.mp ht
  exact hinit u hu

/-- Tokens that can be read may stand elsewhere. -/
theorem programOf_relocate {tokens : List Token} {p : Program} (h : Ended tokens)
    (hp : programOf tokens = .ok p) (f : Location → Location) :
    programOf (tokens.map (Token.relocate f)) = .ok (p.relocate f) := by
  have hstart : Reading.start (tokens.map (Token.relocate f)) = (Reading.start tokens).relocate f := by
    simp [Reading.start, Reading.relocate, Function.comp_def]
  have hread := Reading.takeAll_relocate f (Reading.start tokens) tokens
  rw [h.finished hp, ← hstart] at hread
  apply programOf_of_finished
  cases hall : (Reading.start (tokens.map (Token.relocate f))).takeAll (tokens.map (Token.relocate f)) with
  | error misfit =>
      rw [hall] at hread
      cases hread
  | ok r =>
      rw [hall] at hread
      rw [Option.some.inj hread]
      rfl

/-- Tokens up to the end of a text that do not end with documentation have ended its last statement. -/
theorem ended?_of_finished {r : Reading} {init : List Token} {last : Token} {p : Program}
    (hr : r.recent = {}) (hinit : ∀ t ∈ init, t.kind ≠ .eof) (hlast : last.kind = .eof)
    (hdoc : ∀ t, init.getLast? = some t → t.kind.doc? = none)
    (h : r.takeAll (init ++ [last]) = .ok (.complete p)) :
    ∃ s, r.takeAll init = .ok s ∧ s.ended? .eof = some (.program p.body p.location) := by
  obtain ⟨s, hall, hstep⟩ := Reading.exists_concat h
  obtain ⟨kind, loc⟩ := last
  obtain rfl : kind = .eof := hlast
  have hrecent := Reading.recent_takeAll (by rw [hr]) hinit hall
  have hforgot : s.recent.doc = none ∧ s.recent.ended = false := by
    rw [hrecent, hr]
    rcases List.eq_nil_or_concat init with rfl | ⟨before, t, rfl⟩
    · exact ⟨rfl, rfl⟩
    · have heof := hinit t (by simp)
      rw [List.concat_eq_append, List.map_append, List.map_singleton, Recent.after_concat]
      exact ⟨hdoc t (by simp), by simpa using heof⟩
  exact ⟨s, hall, Reading.ended?_of_complete hforgot.1 hforgot.2 hstep⟩

/-- Two programs with a semicolon between them are one. -/
theorem programOf_joined {init others : List Token} {last semicolon : Token} {p q : Program}
    (hended : Ended (init ++ [last])) (hothers : Ended others)
    (hp : programOf (init ++ [last]) = .ok p) (hq : programOf others = .ok q)
    (hdoc : ∀ t, init.getLast? = some t → t.kind.doc? = none)
    (hsemicolon : semicolon.kind = .mark .semicolon) :
    ∃ joined, programOf (init ++ semicolon :: others) = .ok joined ∧
      joined.body = p.body ++ q.body := by
  obtain ⟨hlast, hinit⟩ : last.kind = .eof ∧ ∀ t ∈ init, t.kind ≠ .eof := by
    obtain ⟨before, eof, hsplit, heof, hbefore⟩ := hended
    obtain ⟨rfl, hsame⟩ := List.append_inj' hsplit rfl
    obtain rfl := List.singleton_inj.mp hsame
    exact ⟨heof, hbefore⟩
  -- The first program may start at the semicolon, if no token of its own comes before the end of the text.
  let place := (init ++ semicolon :: others).head?.map Token.location
  have hstart : Reading.start (init ++ semicolon :: others) =
      (Reading.start (init ++ [last])).onto [] place := rfl
  have hfirst := Reading.takeAll_onto [] place (Reading.start (init ++ [last])) (init ++ [last])
  rw [hended.finished hp] at hfirst
  obtain ⟨s, hs, hended?⟩ := ended?_of_finished rfl hinit hlast hdoc hfirst
  have hsecond := Reading.takeAll_onto p.body place (Reading.start others) others
  rw [hothers.finished hq] at hsecond
  refine ⟨⟨p.body ++ q.body, place⟩, programOf_of_finished ?_, rfl⟩
  rw [hstart, Reading.takeAll_append, hs]
  show s.takeAll (semicolon :: others) = _
  rw [Reading.takeAll, Reading.take, Reading.step_semicolon hended? hsemicolon]
  show (Reading.statement none (.program p.body place)).takeAll others = _
  -- What was read up to here is what is read of the second program before its first token.
  have hbetween : Reading.statement none (.program p.body place) =
      (Reading.start others).onto p.body place := by
    simp [Reading.start]
  rw [hbetween, hsecond]
  rfl

/-- Two texts that can be read, of which the first does not end with documentation, can be read with a semicolon on
a line of its own between them.  That gives the statements of both, those of the second further on by the lines and
the characters before them. -/
theorem read_joined {a b : String} {file : Option String} {tokens : List Token} {p q : Program}
    (htokens : Token.tokenize a file = .ok tokens) (hp : read a file = .ok p)
    (hq : read b file = .ok q)
    (hdoc : ∀ t text, tokens.dropLast.getLast? = some t → t.kind ≠ .doc text) :
    ∃ joined, read (a ++ "\n;\n" ++ b) file = .ok joined ∧
      joined.body = p.body ++
        q.body.map (Stmt.relocate (Location.moved (a.toList.count '\n' + 2) (a.length + 3))) := by
  obtain ⟨tokens', ha, hp⟩ := tokens_of_read hp
  obtain rfl := Except.ok.inj (ha.symm.trans htokens)
  obtain ⟨others, hb, hq⟩ := tokens_of_read hq
  obtain ⟨init, semicolon, rfl, hsemicolon, hjoined⟩ := Token.tokenize_joined ha hb
  have hundocumented : ∀ t, init.getLast? = some t → t.kind.doc? = none := by
    intro t ht
    rw [List.dropLast_concat] at hdoc
    cases hkind : t.kind with
    | doc text => exact absurd hkind (hdoc t text ht)
    | _ => rfl
  have hends := (ended_tokenize hb).relocate (.moved (a.toList.count '\n' + 2) (a.length + 3))
  have hmoved := programOf_relocate (ended_tokenize hb) hq
    (.moved (a.toList.count '\n' + 2) (a.length + 3))
  obtain ⟨joined, hprogram, hbody⟩ :=
    programOf_joined (ended_tokenize ha) hends hp hmoved hundocumented hsemicolon
  refine ⟨joined, ?_, by simpa [Program.relocate] using hbody⟩
  rw [read, hjoined]
  exact readTokens_of_program hprogram _ _

/-- A comment before the joint, and documentation, a function and a member behind it. -/
theorem read_joined_documented :
    ∃ p q joined, read "let a = x\n// b" none = .ok p ∧
      read "/// c\nfn f() \x7b a.b \x7d" none = .ok q ∧
      read ("let a = x\n// b" ++ "\n;\n" ++ "/// c\nfn f() \x7b a.b \x7d") none = .ok joined ∧
      joined.body = p.body ++ q.body.map (Stmt.relocate (Location.moved 3 17)) := by
  obtain ⟨tokens, htokens, hdoc⟩ : ∃ tokens, Token.tokenize "let a = x\n// b" none = .ok tokens ∧
      ∀ t text, tokens.dropLast.getLast? = some t → t.kind ≠ .doc text := by
    refine ⟨_, rfl, fun t text ht hkind => ?_⟩
    obtain rfl := Option.some.inj ht
    cases hkind
  obtain ⟨p, hp⟩ : ∃ p, read "let a = x\n// b" none = .ok p := ⟨_, rfl⟩
  obtain ⟨q, hq⟩ : ∃ q, read "/// c\nfn f() \x7b a.b \x7d" none = .ok q := ⟨_, rfl⟩
  obtain ⟨joined, hjoined, hbody⟩ := read_joined htokens hp hq hdoc
  exact ⟨p, q, joined, hp, hq, hjoined, hbody⟩

end ScriptLens.Syntax
