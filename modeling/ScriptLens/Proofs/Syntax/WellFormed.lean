import ScriptLens.Syntax.Read

/-!
# Well-formed programs

Not every tree is a program that can be written down: only names and members can be assigned to, a
constant needs a value, and an import takes each name once.  Operators and member names need no rule: a
tree has only operators of the language, and a member after a dot is a name by its type.

Everything that is read so far at any point of reading a program keeps to these rules, so the program does
when reading ends.

Main statement: `Reading.WellFormed.step`, from which `wellFormed_of_programOf` follows.
-/

namespace ScriptLens

/-! ### Trees -/

mutual

/-- An expression in which only names and members are assigned to. -/
def Expr.WellFormed : Expr → Prop
  | .number _ _ => True
  | .string _ _ => True
  | .identifier _ _ => True
  | .array elements _ => WellFormedExprs elements
  | .object properties _ => WellFormedProperties properties
  | .lambda _ body _ => WellFormedStmts body
  | .call callee arguments _ => callee.WellFormed ∧ WellFormedExprs arguments
  | .member object _ _ _ => object.WellFormed
  | .index object key _ => object.WellFormed ∧ key.WellFormed
  | .binary _ left right _ => left.WellFormed ∧ right.WellFormed
  | .unary _ operand _ => operand.WellFormed
  | .assign target value _ => target.isTarget = true ∧ target.WellFormed ∧ value.WellFormed

/-- Well-formed expressions. -/
def WellFormedExprs : List Expr → Prop
  | [] => True
  | e :: rest => e.WellFormed ∧ WellFormedExprs rest

/-- An entry with a well-formed value, or with none. -/
def Property.WellFormed : Property → Prop
  | .mk _ none _ => True
  | .mk _ (some value) _ => value.WellFormed

/-- Well-formed entries. -/
def WellFormedProperties : List Property → Prop
  | [] => True
  | p :: rest => p.WellFormed ∧ WellFormedProperties rest

/-- A statement of the language itself, in which every constant has a value and no import takes a name
twice. -/
def Stmt.WellFormed : Stmt → Prop
  | .declare constant _ none _ _ => constant = false
  | .declare _ _ (some value) _ _ => value.WellFormed
  | .function _ _ body _ _ => WellFormedStmts body
  | .imports names _ _ => names.Nodup
  | .conditional condition body none _ => condition.WellFormed ∧ WellFormedStmts body
  | .conditional condition body (some otherwise) _ =>
      condition.WellFormed ∧ WellFormedStmts body ∧ WellFormedStmts otherwise
  | .loop condition body _ => condition.WellFormed ∧ WellFormedStmts body
  | .result none _ => True
  | .result (some value) _ => value.WellFormed
  | .expression value _ => value.WellFormed
  | .foreign _ _ _ _ => False

/-- Well-formed statements. -/
def WellFormedStmts : List Stmt → Prop
  | [] => True
  | s :: rest => s.WellFormed ∧ WellFormedStmts rest

end

/-- A program of well-formed statements. -/
def Program.WellFormed (p : Program) : Prop :=
  WellFormedStmts p.body

@[simp] theorem wellFormedExprs_concat (es : List Expr) (e : Expr) :
    WellFormedExprs (es ++ [e]) ↔ WellFormedExprs es ∧ e.WellFormed := by
  induction es with
  | nil => simp [WellFormedExprs]
  | cons first rest ih => simp [WellFormedExprs, ih, and_assoc]

@[simp] theorem wellFormedProperties_concat (ps : List Property) (p : Property) :
    WellFormedProperties (ps ++ [p]) ↔ WellFormedProperties ps ∧ p.WellFormed := by
  induction ps with
  | nil => simp [WellFormedProperties]
  | cons first rest ih => simp [WellFormedProperties, ih, and_assoc]

@[simp] theorem wellFormedStmts_concat (ss : List Stmt) (s : Stmt) :
    WellFormedStmts (ss ++ [s]) ↔ WellFormedStmts ss ∧ s.WellFormed := by
  induction ss with
  | nil => simp [WellFormedStmts]
  | cons first rest ih => simp [WellFormedStmts, ih, and_assoc]

namespace Syntax

/-! ### Unfinished programs -/

/-- A branch of well-formed parts. -/
def Branch.WellFormed (b : Branch) : Prop :=
  b.condition.WellFormed ∧ WellFormedStmts b.body

/-- Earlier branches of well-formed parts. -/
def WellFormedChain (chain : List Branch) : Prop :=
  ∀ branch ∈ chain, branch.WellFormed

mutual

/-- A scope of well-formed parts, as far as they were read, and the same of all around it. -/
def Scope.WellFormed : Scope → Prop
  | .program done _ => WellFormedStmts done
  | .function _ _ _ _ done outer => WellFormedStmts done ∧ outer.WellFormed
  | .lambda _ _ done outer => WellFormedStmts done ∧ outer.WellFormed
  | .branch condition _ chain done outer =>
      condition.WellFormed ∧ WellFormedChain chain ∧ WellFormedStmts done ∧ outer.WellFormed
  | .otherwise last chain done outer =>
      last.WellFormed ∧ WellFormedChain chain ∧ WellFormedStmts done ∧ outer.WellFormed
  | .loop condition _ done outer =>
      condition.WellFormed ∧ WellFormedStmts done ∧ outer.WellFormed

/-- A place for an expression with well-formed parts before it, and the same of all around it. -/
def Hole.WellFormed : Hole → Prop
  | .statement _ outer => outer.WellFormed
  | .initial _ _ _ _ outer => outer.WellFormed
  | .result _ outer => outer.WellFormed
  | .branchCondition _ chain outer => WellFormedChain chain ∧ outer.WellFormed
  | .loopCondition _ outer => outer.WellFormed
  | .parenthesis outer => outer.WellFormed
  | .element _ done outer => WellFormedExprs done ∧ outer.WellFormed
  | .property _ done _ _ outer => WellFormedProperties done ∧ outer.WellFormed
  | .argument callee done outer => callee.WellFormed ∧ WellFormedExprs done ∧ outer.WellFormed
  | .key object outer => object.WellFormed ∧ outer.WellFormed
  | .operand _ _ outer => outer.WellFormed
  | .right left _ outer => left.WellFormed ∧ outer.WellFormed
  | .assigned target outer => target.isTarget = true ∧ target.WellFormed ∧ outer.WellFormed

end

/-- A function with well-formed parts around it. -/
def Callable.WellFormed : Callable → Prop
  | .named _ _ _ outer => outer.WellFormed
  | .anonymous _ outer => outer.WellFormed

/-- A condition after well-formed branches. -/
def Guard.WellFormed : Guard → Prop
  | .branch chain => WellFormedChain chain
  | .loop => True

/-- Nothing that was read so far breaks a rule. -/
def Reading.WellFormed : Reading → Prop
  | .statement _ scope => scope.WellFormed
  | .operand hole => hole.WellFormed
  | .operator left hole => left.WellFormed ∧ hole.WellFormed
  | .argument callee done hole => callee.WellFormed ∧ WellFormedExprs done ∧ hole.WellFormed
  | .element _ done hole => WellFormedExprs done ∧ hole.WellFormed
  | .key _ done hole => WellFormedProperties done ∧ hole.WellFormed
  | .value _ done _ _ hole => WellFormedProperties done ∧ hole.WellFormed
  | .memberName object hole => object.WellFormed ∧ hole.WellFormed
  | .importHead _ scope => scope.WellFormed
  | .importName _ names scope => names.Nodup ∧ scope.WellFormed
  | .importNext _ names scope => names.Nodup ∧ scope.WellFormed
  | .importFrom _ names scope => names.Nodup ∧ scope.WellFormed
  | .importSource _ names scope => names.Nodup ∧ scope.WellFormed
  | .declaredName _ _ scope => scope.WellFormed
  | .initial _ _ _ _ scope => scope.WellFormed
  | .functionHead _ _ scope => scope.WellFormed
  | .parameters owner => owner.WellFormed
  | .parameterName owner _ => owner.WellFormed
  | .parameterNext owner _ => owner.WellFormed
  | .condition guard _ scope => guard.WellFormed ∧ scope.WellFormed
  | .block inner => inner.WellFormed
  | .afterBranch last chain scope =>
      last.WellFormed ∧ WellFormedChain chain ∧ scope.WellFormed
  | .elseHead last chain scope => last.WellFormed ∧ WellFormedChain chain ∧ scope.WellFormed
  | .result _ scope => scope.WellFormed
  | .complete program => program.WellFormed

/-! ### Finished parts -/

theorem Scope.WellFormed.push {scope : Scope} (h : scope.WellFormed) {s : Stmt}
    (hs : s.WellFormed) : (scope.push s).WellFormed := by
  cases scope <;> simp_all [Scope.push, Scope.WellFormed]

/-- A conditional stays well formed under earlier branches. -/
theorem wellFormed_nest {chain : List Branch} (h : WellFormedChain chain) {innermost : Stmt}
    (hs : innermost.WellFormed) : (nest chain innermost).WellFormed := by
  induction chain generalizing innermost with
  | nil => exact hs
  | cons branch rest ih =>
      obtain ⟨hcondition, hbody⟩ := h branch List.mem_cons_self
      have hrest : WellFormedChain rest := fun b hb => h b (List.mem_cons_of_mem _ hb)
      refine ih hrest ?_
      simp [Stmt.WellFormed, WellFormedStmts, hcondition, hbody, hs]

theorem Scope.WellFormed.pushChain {scope : Scope} (h : scope.WellFormed) {last : Branch}
    (hlast : last.WellFormed) {otherwise : Option (List Stmt)}
    (hotherwise : ∀ body, otherwise = some body → WellFormedStmts body) {chain : List Branch}
    (hchain : WellFormedChain chain) : (scope.pushChain last otherwise chain).WellFormed := by
  refine h.push (wellFormed_nest hchain ?_)
  cases otherwise with
  | none => exact hlast
  | some body => exact ⟨hlast.1, hlast.2, hotherwise body rfl⟩

theorem wellFormed_afterOperand {hole : Hole} (h : hole.WellFormed) {e : Expr}
    (he : e.WellFormed) : (afterOperand e hole).WellFormed := by
  fun_induction afterOperand e hole with
  | case1 e op loc outer ih => exact ih h he
  | case2 e hole hno => exact ⟨he, h⟩

theorem wellFormed_absorb {hole : Hole} (h : hole.WellFormed) {e : Expr} (he : e.WellFormed)
    (precedence : Nat) :
    (absorb precedence e hole).1.WellFormed ∧ (absorb precedence e hole).2.WellFormed := by
  fun_induction absorb precedence e hole with
  | case1 e left op outer hle ih => exact ih h.2 ⟨h.1, he⟩
  | case2 e left op outer hle => exact ⟨he, h⟩
  | case3 e hole hno => exact ⟨he, h⟩

/-! ### One token -/

/-- A token that fits leaves nothing that breaks a rule. -/
def Sound (next : Except Complaint Reading) : Prop :=
  ∀ r, next = .ok r → r.WellFormed

@[simp] theorem sound_ok {r : Reading} : Sound (.ok r) ↔ r.WellFormed := by
  simp [Sound]

@[simp] theorem sound_error (complaint : Complaint) : Sound (.error complaint) := by
  simp [Sound]

theorem Scope.WellFormed.close {scope : Scope} (h : scope.WellFormed) : Sound scope.close := by
  cases scope with
  | program done loc => exact sound_error _
  | function name parameters doc loc done outer => exact sound_ok.mpr (h.2.push h.1)
  | lambda parameters loc done outer => exact sound_ok.mpr (wellFormed_afterOperand h.2 h.1)
  | branch condition loc chain done outer =>
      obtain ⟨hcondition, hchain, hdone, houter⟩ := h
      exact sound_ok.mpr ⟨⟨hcondition, hdone⟩, hchain, houter⟩
  | otherwise last chain done outer =>
      obtain ⟨hlast, hchain, hdone, houter⟩ := h
      refine sound_ok.mpr (houter.pushChain hlast (fun body hbody => ?_) hchain)
      rwa [← Option.some.inj hbody]
  | loop condition loc done outer => exact sound_ok.mpr (h.2.2.push ⟨h.1, h.2.1⟩)

theorem Scope.WellFormed.finish {scope : Scope} (h : scope.WellFormed) : Sound scope.finish := by
  cases scope with
  | program done loc => exact sound_ok.mpr h
  | _ => exact sound_error _

theorem Hole.WellFormed.begin {hole : Hole} (h : hole.WellFormed) (t : Token) :
    Sound (hole.begin t) := by
  unfold Hole.begin
  split
  case h_1 | h_2 | h_3 => exact sound_ok.mpr (wellFormed_afterOperand h trivial)
  case h_4 | h_5 | h_6 | h_7 => exact sound_ok.mpr h
  case h_8 | h_9 => exact sound_ok.mpr ⟨trivial, h⟩
  case h_10 => exact sound_error _

theorem Scope.WellFormed.begin {scope : Scope} (h : scope.WellFormed) (doc : Option String)
    (t : Token) : Sound (scope.begin doc t) := by
  unfold Scope.begin
  split
  case h_1 => exact h.finish
  case h_2 => exact h.close
  case h_3 =>
      split
      · exact sound_ok.mpr h
      · exact sound_error _
  case h_4 | h_5 | h_6 | h_7 | h_8 | h_11 => exact sound_ok.mpr h
  case h_9 => exact sound_ok.mpr ⟨by simp [Guard.WellFormed, WellFormedChain], h⟩
  case h_10 => exact sound_ok.mpr ⟨trivial, h⟩
  case h_12 =>
      have hhole : (Hole.statement t.location scope).WellFormed := h
      exact hhole.begin t

theorem Callable.WellFormed.begin {owner : Callable} (h : owner.WellFormed) (t : Token) :
    Sound (owner.begin t) := by
  unfold Callable.begin
  split
  · exact sound_ok.mpr h
  · exact sound_error _

theorem Callable.WellFormed.scope {owner : Callable} (h : owner.WellFormed)
    (parameters : List String) : (owner.scope parameters).WellFormed := by
  cases owner with
  | named name doc loc outer => exact ⟨trivial, h⟩
  | anonymous loc outer => exact ⟨trivial, h⟩

theorem Scope.WellFormed.enter {inner : Scope} (h : inner.WellFormed) (t : Token) :
    Sound (inner.enter t) := by
  unfold Scope.enter
  split
  · exact sound_ok.mpr h
  · exact sound_error _

theorem sound_afterEntry {done : List Property} (hdone : WellFormedProperties done) {hole : Hole}
    (h : hole.WellFormed) (loc : Location) (t : Token) : Sound (afterEntry loc done hole t) := by
  unfold afterEntry
  split
  · exact sound_ok.mpr ⟨hdone, h⟩
  · exact sound_ok.mpr (wellFormed_afterOperand h hdone)
  · exact sound_error _

/-- Filling a place with a well-formed expression goes out through the operators around the place. -/
theorem Hole.WellFormed.fill {hole : Hole} (h : hole.WellFormed) {e : Expr} (he : e.WellFormed)
    (t : Token) : Sound (hole.fill e t) := by
  fun_induction Hole.fill e t hole with
  | case1 e loc outer =>
      have hs : (Stmt.expression e loc).WellFormed := he
      exact (Scope.WellFormed.push h hs).begin none t
  | case2 e constant name doc loc outer =>
      have hs : (Stmt.declare constant name (some e) doc loc).WellFormed := he
      exact (Scope.WellFormed.push h hs).begin none t
  | case3 e loc outer =>
      have hs : (Stmt.result (some e) loc).WellFormed := he
      exact (Scope.WellFormed.push h hs).begin none t
  | case4 e loc chain outer hkind => exact sound_ok.mpr ⟨he, h.1, trivial, h.2⟩
  | case6 e loc outer hkind => exact sound_ok.mpr ⟨he, trivial, h⟩
  | case8 e outer hkind =>
      have houter : outer.WellFormed := h
      exact sound_ok.mpr (wellFormed_afterOperand houter he)
  | case10 e loc done outer hkind =>
      exact sound_ok.mpr ⟨(wellFormedExprs_concat done e).mpr ⟨h.1, he⟩, h.2⟩
  | case11 e loc done outer hkind =>
      exact sound_ok.mpr
        (wellFormed_afterOperand h.2 ((wellFormedExprs_concat done e).mpr ⟨h.1, he⟩))
  | case13 e loc done name nameLoc outer =>
      have hentry : (Property.mk name (some e) nameLoc).WellFormed := he
      exact sound_afterEntry ((wellFormedProperties_concat done _).mpr ⟨h.1, hentry⟩) h.2 loc t
  | case14 e callee done outer hkind =>
      exact sound_ok.mpr ⟨h.1, (wellFormedExprs_concat done e).mpr ⟨h.2.1, he⟩, h.2.2⟩
  | case15 e callee done outer hkind =>
      exact sound_ok.mpr ⟨⟨h.1, (wellFormedExprs_concat done e).mpr ⟨h.2.1, he⟩⟩, h.2.2⟩
  | case17 e object outer hkind => exact sound_ok.mpr ⟨⟨h.1, he⟩, h.2⟩
  | case19 e op loc outer ih => exact ih h he
  | case20 e left op outer ih => exact ih h.2 ⟨h.1, he⟩
  | case21 e target outer ih => exact ih h.2.2 ⟨h.1, h.2.1, he⟩
  | _ => exact sound_error _

theorem Hole.WellFormed.extend {hole : Hole} (h : hole.WellFormed) {left : Expr}
    (hleft : left.WellFormed) (t : Token) : Sound (hole.extend left t) := by
  unfold Hole.extend
  split
  · exact sound_ok.mpr ⟨hleft, trivial, h⟩
  · exact sound_ok.mpr ⟨hleft, h⟩
  · exact sound_ok.mpr ⟨hleft, h⟩
  · obtain ⟨hwhole, houter⟩ := wellFormed_absorb h hleft 0
    dsimp only
    split
    · rename_i htarget
      exact sound_ok.mpr ⟨htarget, hwhole, houter⟩
    · exact sound_error _
  · split
    · exact sound_ok.mpr (wellFormed_absorb h hleft _)
    · exact h.fill hleft t
  · exact h.fill hleft t

theorem nodup_addName {names : List String} (h : names.Nodup) (name : String) :
    (addName names name).Nodup := by
  unfold addName
  split
  · exact h
  · rename_i hnew
    have hfresh : name ∉ names := by simpa using hnew
    simpa [List.nodup_append, h] using fun a ha => ne_of_mem_of_not_mem ha hfresh

/-- Nothing breaks a rule after one more token if nothing did before it. -/
theorem Reading.WellFormed.step {r : Reading} (h : r.WellFormed) (t : Token) : Sound (r.step t) := by
  cases r with
  | statement doc scope => exact Scope.WellFormed.begin h doc t
  | operand hole => exact Hole.WellFormed.begin h t
  | operator left hole => exact h.2.extend h.1 t
  | argument callee done hole =>
      have hhole : (Hole.argument callee done hole).WellFormed := h
      rw [Reading.step]
      split
      · exact sound_ok.mpr ⟨⟨h.1, h.2.1⟩, h.2.2⟩
      · exact hhole.begin t
  | element loc done hole =>
      have hhole : (Hole.element loc done hole).WellFormed := h
      rw [Reading.step]
      split
      · exact sound_ok.mpr (wellFormed_afterOperand h.2 h.1)
      · exact hhole.begin t
  | key loc done hole =>
      rw [Reading.step]
      split
      · exact sound_ok.mpr (wellFormed_afterOperand h.2 h.1)
      · exact sound_ok.mpr h
      · exact sound_ok.mpr h
      · exact sound_error _
  | value loc done name nameLoc hole =>
      have hentry : (Property.mk name none nameLoc).WellFormed := trivial
      rw [Reading.step]
      split
      · exact sound_ok.mpr h
      · exact sound_afterEntry ((wellFormedProperties_concat done _).mpr ⟨h.1, hentry⟩) h.2 loc t
  | memberName object hole =>
      rw [Reading.step]
      split
      · exact sound_ok.mpr h
      · exact sound_ok.mpr h
      · exact sound_error _
  | importHead loc scope =>
      rw [Reading.step]
      split
      · exact sound_ok.mpr ⟨List.nodup_nil, h⟩
      · exact sound_ok.mpr ⟨by simp, h⟩
      · exact sound_error _
  | importName loc names scope =>
      rw [Reading.step]
      split
      · exact sound_ok.mpr h
      · exact sound_ok.mpr ⟨nodup_addName h.1 _, h.2⟩
      · exact sound_error _
  | importNext loc names scope =>
      rw [Reading.step]
      split
      · exact sound_ok.mpr h
      · exact sound_ok.mpr h
      · exact sound_error _
  | importFrom loc names scope =>
      rw [Reading.step]
      split
      · exact sound_ok.mpr h
      · exact sound_error _
  | importSource loc names scope =>
      rw [Reading.step]
      split
      · exact sound_ok.mpr (h.2.push h.1)
      · exact sound_error _
  | declaredName constant doc scope =>
      rw [Reading.step]
      split
      · exact sound_ok.mpr h
      · exact sound_error _
  | initial constant name doc loc scope =>
      rw [Reading.step]
      split
      · exact sound_ok.mpr h
      · split
        · exact sound_error _
        · rename_i hvariable
          have hs : (Stmt.declare constant name none doc loc).WellFormed := by
            simpa [Stmt.WellFormed] using hvariable
          exact (Scope.WellFormed.push h hs).begin none t
  | functionHead doc loc scope =>
      have howner : (Callable.anonymous loc (.statement loc scope)).WellFormed := h
      rw [Reading.step]
      split
      · exact sound_ok.mpr h
      · exact howner.begin t
  | parameters owner => exact Callable.WellFormed.begin h t
  | parameterName owner names =>
      rw [Reading.step]
      split
      · exact sound_ok.mpr (Callable.WellFormed.scope h names)
      · exact sound_ok.mpr h
      · exact sound_error _
  | parameterNext owner names =>
      rw [Reading.step]
      split
      · exact sound_ok.mpr h
      · exact sound_ok.mpr (Callable.WellFormed.scope h names)
      · exact sound_error _
  | condition guard loc scope =>
      cases guard with
      | branch chain =>
          rw [Reading.step]
          split
          · exact sound_ok.mpr h
          · exact sound_error _
      | loop =>
          rw [Reading.step]
          split
          · exact sound_ok.mpr h.2
          · exact sound_error _
  | block inner => exact Scope.WellFormed.enter h t
  | afterBranch last chain scope =>
      rw [Reading.step]
      split
      · exact sound_ok.mpr h
      · exact (h.2.2.pushChain h.1 (by simp) h.2.1).begin none t
  | elseHead last chain scope =>
      have hinner : (Scope.otherwise last chain [] scope).WellFormed := ⟨h.1, h.2.1, trivial, h.2.2⟩
      rw [Reading.step]
      split
      · exact sound_ok.mpr ⟨List.forall_mem_cons.mpr ⟨h.1, h.2.1⟩, h.2.2⟩
      · exact hinner.enter t
  | result loc scope =>
      have hhole : (Hole.result loc scope).WellFormed := h
      have hs : (Stmt.result none loc).WellFormed := trivial
      rw [Reading.step]
      split
      case h_1 | h_2 | h_3 => exact (Scope.WellFormed.push h hs).begin none t
      case h_4 => exact hhole.begin t
  | complete program => exact sound_ok.mpr h

/-! ### All tokens -/

theorem Reading.WellFormed.take {r r' : Reading} (h : r.WellFormed) {t : Token}
    (ht : r.take t = .ok r') : r'.WellFormed := by
  refine h.step t r' ?_
  rw [Reading.take] at ht
  cases hstep : r.step t with
  | error complaint =>
      rw [hstep] at ht
      cases ht
  | ok next =>
      rw [hstep] at ht
      exact congrArg Except.ok (Except.ok.inj ht)

/-- Nothing breaks a rule after all tokens. -/
theorem Reading.WellFormed.takeAll {r r' : Reading} (h : r.WellFormed) {tokens : List Token}
    (ht : r.takeAll tokens = .ok r') : r'.WellFormed := by
  induction tokens generalizing r with
  | nil =>
      obtain rfl : r = r' := by simpa [Reading.takeAll] using ht
      exact h
  | cons t ts ih =>
      rw [Reading.takeAll] at ht
      cases htake : r.take t with
      | error misfit => simp [htake, bind, Except.bind] at ht
      | ok next => exact ih (h.take htake) (by simpa [htake, bind, Except.bind] using ht)

/-- A program that was read is well formed. -/
theorem wellFormed_of_programOf {tokens : List Token} {p : Program}
    (h : programOf tokens = .ok p) : p.WellFormed := by
  have hstart : (Reading.start tokens).WellFormed := trivial
  rw [programOf] at h
  cases hall : (Reading.start tokens).takeAll tokens with
  | error misfit => simp [hall, bind, Except.bind] at h
  | ok r =>
      have hr := hstart.takeAll hall
      simp only [hall, bind, Except.bind] at h
      split at h
      · obtain rfl := Except.ok.inj h
        exact hr
      · split at h
        · cases h
        · rename_i next htake
          have hnext := hr.take htake
          split at h
          · obtain rfl := Except.ok.inj h
            exact hnext
          · cases h

end Syntax

end ScriptLens
