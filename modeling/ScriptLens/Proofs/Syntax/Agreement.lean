import ScriptLens.Proofs.Syntax.Progress

/-!
# Descent and reading agree

Reading a program one token at a time keeps around the place that was reached what recursive descent keeps in the
calls that have not ended.  So a procedure that is called where the reading may be going on does what the reading does:
where it gives something back the reading has come to the same token with the same thing read, and where it complains
the reading has the same complaint about the same token.

What a procedure is to do is said for every reading that it can be called in (`Agreement`).  The rules for acts
(`Mirrors`) follow a body and the reading side by side.

Main statements: `meets_agreement` and `agreement_of_runs`.
-/

namespace ScriptLens.Syntax

/-! ### Places -/

/-- Whether a scope ends with a brace. -/
def Scope.braced : Scope → Bool
  | .program _ _ => false
  | _ => true

theorem Scope.append_push (scope : Scope) (ss : List Stmt) (s : Stmt) :
    (scope.append ss).push s = scope.append (ss ++ [s]) := by
  cases scope <;> simp [Scope.append, Scope.push]

theorem Scope.braced_append (scope : Scope) (ss : List Stmt) : (scope.append ss).braced = scope.braced := by
  cases scope <;> rfl

/-- Tokens with which a statement starts, or that cannot stand where a statement should. -/
def Scope.Opens (scope : Scope) (doc : Option String) : Kind → Prop
  | .eof => False
  | .doc _ => False
  | .mark .closeBrace => scope.braced = false
  | .mark .semicolon => doc ≠ none
  | _ => True

/-- A place for an operand, where an operator that binds tighter than `floor` goes on with the operand. -/
def Hole.Binds (floor : Nat) : Hole → Prop
  | .operand _ _ _ => False
  | .right _ op _ => floor = op.precedence
  | _ => floor = 0

theorem Hole.Plain.binds {hole : Hole} (h : hole.Plain) : hole.Binds 0 := by
  cases hole with
  | operand op loc outer => exact h
  | right left op outer => exact absurd h id
  | _ => rfl

theorem Hole.Binds.afterOperand {hole : Hole} {floor : Nat} (h : hole.Binds floor) (e : Expr) :
    afterOperand e hole = .operator e hole := by
  cases hole with
  | operand op loc outer => exact absurd h id
  | _ => rfl

theorem Hole.Binds.absorb {hole : Hole} {floor precedence : Nat} (h : hole.Binds floor) (hlt : floor < precedence)
    (e : Expr) : absorb precedence e hole = (e, hole) := by
  cases hole with
  | operand op loc outer => exact absurd h id
  | right left op outer =>
      obtain rfl : floor = op.precedence := h
      rw [Syntax.absorb, if_neg (Nat.not_le.mpr hlt)]
  | _ => rfl

namespace Guard

/-- The word before a condition. -/
def word : Guard → Keyword
  | .branch _ => .ifWord
  | .loop => .whileWord

/-- The place of a condition. -/
def place (location : Location) (outer : Scope) : Guard → Hole
  | .branch chain => .branchCondition location chain outer
  | .loop => .loopCondition location outer

/-- The scope behind a condition. -/
def scope (condition : Expr) (location : Location) (outer : Scope) : Guard → Scope
  | .branch chain => .branch condition location chain [] outer
  | .loop => .loop condition location [] outer

end Guard

namespace Descent

open Act (current following move invoke accept expect expectSome)

/-- A list of names that is being read: the reading before a name or the end of the list, behind a name, and behind
the list. -/
structure NameSite (list : NameList) where
  before : List String → Reading
  after : List String → Reading
  behind : List String → Reading
  close : ∀ names t, t.kind = .mark list.stop → (before names).step t = .ok (behind names)
  name : ∀ names t name, t.kind = .identifier name → (before names).step t = .ok (after (list.add names name))
  missing : ∀ names t, t.kind ≠ .mark list.stop → name? t.kind = none →
    (before names).step t = .error list.missing
  comma : ∀ names t, t.kind = .mark .comma → (after names).step t = .ok (before names)
  last : ∀ names t, t.kind = .mark list.stop → (after names).step t = .ok (behind names)
  unclosed : ∀ names t, t.kind ≠ .mark .comma → t.kind ≠ .mark list.stop →
    (after names).step t = .error list.unclosed

/-- The parameters of a function. -/
def NameSite.parameters (owner : Callable) : NameSite .parameters where
  before := .parameterName owner
  after := .parameterNext owner
  behind names := .block (owner.scope names)
  close names t h := by simp [Reading.step, h, NameList.stop]
  name names t name h := by simp [Reading.step, h, NameList.add]
  missing names t hstop hname := by
    simp only [Reading.step]
    split <;> simp_all [NameList.stop, name?, NameList.missing]
  comma names t h := by simp [Reading.step, h]
  last names t h := by simp [Reading.step, h, NameList.stop]
  unclosed names t hcomma hstop := by
    simp only [Reading.step]
    split <;> simp_all [NameList.stop, NameList.unclosed]

/-- The names of an import. -/
def NameSite.imports (location : Location) (scope : Scope) : NameSite .imports where
  before names := .importName location names scope
  after names := .importNext location names scope
  behind names := .importFrom location names scope
  close names t h := by simp [Reading.step, h, NameList.stop]
  name names t name h := by simp [Reading.step, h, NameList.add]
  missing names t hstop hname := by
    simp only [Reading.step]
    split <;> simp_all [NameList.stop, name?, NameList.missing]
  comma names t h := by simp [Reading.step, h]
  last names t h := by simp [Reading.step, h, NameList.stop]
  unclosed names t hcomma hstop := by
    simp only [Reading.step]
    split <;> simp_all [NameList.stop, NameList.unclosed]

/-- A list of expressions is read as the given kind of list. -/
structure Lists (list : ExprList) (site : Sequence) : Prop where
  stop_eq : site.stop = list.stop
  opens : ∀ es t, t.kind ≠ .mark list.stop → (site.before es).step t = (Reading.operand (site.place es)).step t
  unclosed : ∀ es e t, t.kind ≠ .mark .comma → t.kind ≠ .mark list.stop →
    (site.place es).fill e t = .error list.unclosed

namespace Lists

variable {list : ExprList} {site : Sequence} (h : Lists list site) {t : Token}

include h

theorem close (ht : t.kind = .mark list.stop) (es : List Expr) : (site.before es).step t = .ok (site.behind es) := by
  obtain ⟨kind, location⟩ := t
  obtain rfl : kind = .mark site.stop := by rw [h.stop_eq]; exact ht
  exact site.close es location

theorem last (ht : t.kind = .mark list.stop) (es : List Expr) (e : Expr) :
    (site.place es).fill e t = .ok (site.behind (es ++ [e])) := by
  obtain ⟨kind, location⟩ := t
  obtain rfl : kind = .mark site.stop := by rw [h.stop_eq]; exact ht
  exact site.last es e location

omit h in
theorem comma (ht : t.kind = .mark .comma) (es : List Expr) (e : Expr) :
    (site.place es).fill e t = .ok (site.before (es ++ [e])) := by
  obtain ⟨kind, location⟩ := t
  obtain rfl : kind = .mark .comma := ht
  exact site.comma es e location

end Lists

theorem lists_arguments (callee : Expr) (hole : Hole) : Lists .arguments (.arguments callee hole) where
  stop_eq := rfl
  opens es t h := by simp_all [Sequence.arguments, Reading.step, ExprList.stop]
  unclosed es e t hcomma hstop := by
    simp only [Sequence.arguments, Hole.fill]
    split <;> simp_all [ExprList.stop, ExprList.unclosed]

theorem lists_elements (location : Location) (hole : Hole) : Lists .elements (.elements location hole) where
  stop_eq := rfl
  opens es t h := by simp_all [Sequence.elements, Reading.step, ExprList.stop]
  unclosed es e t hcomma hstop := by
    simp only [Sequence.elements, Hole.fill]
    split <;> simp_all [ExprList.stop, ExprList.unclosed]

/-! ### What it means to agree -/

variable {α β : Type}

/-- What the reading comes to in the end is what it comes to behind a result, from a reading as `post` says, or it is
the complaint about the token at hand. -/
def Ends (tokens : List Token) (final : Except Misfit Reading) (post : α → Nat → Reading → Prop) :
    Except Complaint α → Nat → Prop
  | .ok value, stop => ∃ r, post value stop r ∧ final = r.takeAll (tokens.drop stop)
  | .error complaint, stop => final = .error ⟨complaint, tokenAt tokens stop⟩

/-- A procedure that is called at `pos` in the reading `enter` does what the reading does, which goes on with `leave`
behind it. -/
def Same (tokens : List Token) (enter : Reading) (pos : Nat) (leave : α → Reading) :
    Except Complaint α → Nat → Prop :=
  Ends tokens (enter.takeAll (tokens.drop pos)) fun value _ r => r = leave value

/-- Each procedure does what the reading does, in every reading that it can be called in. -/
def Agreement (tokens : List Token) : Call α → (pos : Nat) → Except Complaint α → (stop : Nat) → Prop
  | .program, pos, outcome, stop =>
      Same tokens (.statement none (.program [] (tokenAt tokens pos).location)) pos
        (fun p => .statement none (.program p.body p.location)) outcome stop
  | .statements inBlock done, pos, outcome, stop =>
      ∀ base : Scope, base.braced = inBlock →
        Same tokens (.statement none (base.append done)) pos (fun all => .statement none (base.append all))
          outcome stop
  | .semicolons, pos, outcome, stop =>
      ∀ scope, Same tokens (.statement none scope) pos (fun _ => .statement none scope) outcome stop
  | .documentation seen, pos, outcome, stop =>
      ∀ scope, Same tokens (.statement seen scope) pos (fun doc => .statement doc scope) outcome stop
  | .statement doc, pos, outcome, stop =>
      ∀ scope : Scope, scope.Opens doc (tokenAt tokens pos).kind →
        Same tokens (.statement doc scope) pos (fun s => .statement none (scope.push s)) outcome stop
  | .importStatement, pos, outcome, stop =>
      ∀ doc scope, (tokenAt tokens pos).kind = .keyword .importWord →
        Same tokens (.statement doc scope) pos (fun s => .statement none (scope.push s)) outcome stop
  | .declaration doc, pos, outcome, stop =>
      ∀ scope, (tokenAt tokens pos).kind = .keyword .letWord ∨ (tokenAt tokens pos).kind = .keyword .constWord →
        Same tokens (.statement doc scope) pos (fun s => .statement none (scope.push s)) outcome stop
  | .function name location doc, pos, outcome, stop =>
      ∀ scope, (tokenAt tokens pos).kind = .keyword .fnWord →
        tokenAt tokens (pos + 1) = ⟨.identifier name, location⟩ →
        Same tokens (.statement doc scope) pos (fun s => .statement none (scope.push s)) outcome stop
  | .conditional, pos, outcome, stop =>
      ∀ (enter : Reading) chain scope, (tokenAt tokens pos).kind = .keyword .ifWord →
        enter.step (tokenAt tokens pos) = .ok (.condition (.branch chain) (tokenAt tokens pos).location scope) →
        Same tokens enter pos (fun s => .statement none (scope.push (nest chain s))) outcome stop
  | .loop, pos, outcome, stop =>
      ∀ doc scope, (tokenAt tokens pos).kind = .keyword .whileWord →
        Same tokens (.statement doc scope) pos (fun s => .statement none (scope.push s)) outcome stop
  | .result, pos, outcome, stop =>
      ∀ doc scope, (tokenAt tokens pos).kind = .keyword .returnWord →
        Same tokens (.statement doc scope) pos (fun s => .statement none (scope.push s)) outcome stop
  | .condition word, pos, outcome, stop =>
      ∀ (guard : Guard) location scope, guard.word = word →
        Same tokens (.condition guard location scope) pos (fun e => .block (guard.scope e location scope)) outcome stop
  | .block, pos, outcome, stop =>
      ∀ (base : Scope) leave, (∀ all, (base.append all).close = .ok (leave all)) →
        Same tokens (.block base) pos leave outcome stop
  | .parameters, pos, outcome, stop =>
      ∀ owner, Same tokens (.parameters owner) pos (fun names => .block (owner.scope names)) outcome stop
  | .names list done, pos, outcome, stop =>
      ∀ site : NameSite list, Same tokens (site.before done) pos site.behind outcome stop
  | .assignment, pos, outcome, stop =>
      ∀ hole : Hole, hole.Plain → Same tokens (.operand hole) pos (fun e => .operator e hole) outcome stop
  | .expression floor, pos, outcome, stop =>
      ∀ hole : Hole, hole.Binds floor → Same tokens (.operand hole) pos (fun e => .operator e hole) outcome stop
  | .operations floor left, pos, outcome, stop =>
      ∀ hole : Hole, hole.Binds floor → Same tokens (.operator left hole) pos (fun e => .operator e hole) outcome stop
  | .operation left c, pos, outcome, stop =>
      ∀ (floor : Nat) (hole : Hole), hole.Binds floor → floor < c.precedence →
        continuation? (tokenAt tokens pos).kind = some c →
        Same tokens (.operator left hole) pos (fun e => .operator e hole) outcome stop
  | .suffixes left, pos, outcome, stop =>
      ∀ hole, Same tokens (.operator left hole) pos (fun e => .operator e hole) outcome stop
  | .memberName, pos, outcome, stop =>
      ∀ object hole, Same tokens (.memberName object hole) pos
        (fun name => .operator (.member object name.1 name.2 object.location) hole) outcome stop
  | .operand, pos, outcome, stop =>
      ∀ hole, Same tokens (.operand hole) pos (fun e => afterOperand e hole) outcome stop
  | .primary, pos, outcome, stop =>
      ∀ hole, unary? (tokenAt tokens pos).kind = none →
        Same tokens (.operand hole) pos (fun e => afterOperand e hole) outcome stop
  | .expressions list done, pos, outcome, stop =>
      ∀ site, Lists list site → Same tokens (site.before done) pos site.behind outcome stop
  | .properties done, pos, outcome, stop =>
      ∀ location hole, Same tokens (.key location done hole) pos
        (fun all => afterOperand (.object all location) hole) outcome stop

/-! ### Rules for acts -/

/-- What may be relied on where a procedure is called. -/
def Reliance (tokens : List Token) (last : Nat) : Contract := fun f pos outcome stop =>
  (pos ≤ last → Progress tokens last f pos outcome stop) ∧ (pos ≤ last → Agreement tokens f pos outcome stop)

/-- What is left to do at `mid` does what is done in the reading `r` there, and behind it the reading is as `post`
says. -/
def Mirrors (tokens : List Token) (last : Nat) (r : Reading) (act : Act α) (mid : Nat)
    (post : α → Nat → Reading → Prop) : Prop :=
  act.Meets tokens (fun _ _ => True) (Reliance tokens last) mid (Ends tokens (r.takeAll (tokens.drop mid)) post)

variable {tokens : List Token} {last mid : Nat}

theorem EndsAt.drop_eq (h : EndsAt tokens last) (hmid : mid ≤ last) :
    tokens.drop mid = tokenAt tokens mid :: tokens.drop (mid + 1) := by
  have hlt : mid < tokens.length := by
    rw [h.length]
    omega
  rw [tokenAt_eq hlt, List.drop_eq_getElem_cons hlt]

namespace Mirrors

variable {r : Reading} {post : α → Nat → Reading → Prop}

theorem pure {value : α} (h : post value mid r) : Mirrors tokens last r (pure value) mid post :=
  ⟨r, h, rfl⟩

theorem bind {act : Act β} {rest : β → Act α}
    (h : Mirrors tokens last r act mid fun value stop r => Mirrors tokens last r (rest value) stop post) :
    Mirrors tokens last r (act >>= rest) mid post := by
  refine (Act.meets_bind ..).mpr (Act.Meets.mono h fun outcome stop => ?_)
  cases outcome with
  | ok value =>
      rintro ⟨r', hrest, hfinal⟩
      rw [onward_ok, hfinal]
      exact hrest
  | error complaint => exact id

theorem look {rest : Token → Act α} (h : Mirrors tokens last r (rest (tokenAt tokens mid)) mid post) :
    Mirrors tokens last r (current >>= rest) mid post := h

theorem lookAhead {rest : Token → Act α} (h : Mirrors tokens last r (rest (tokenAt tokens (mid + 1))) mid post) :
    Mirrors tokens last r (following >>= rest) mid post := h

section

variable (h : EndsAt tokens last) (hmid : mid ≤ last)

include h hmid

theorem takeAll_ok {r' : Reading} (hstep : r.step (tokenAt tokens mid) = .ok r') :
    r.takeAll (tokens.drop mid) = r'.takeAll (tokens.drop (mid + 1)) := by
  rw [h.drop_eq hmid]
  exact Reading.takeAll_of_step hstep _

theorem takeAll_error {complaint : Complaint} (hstep : r.step (tokenAt tokens mid) = .error complaint) :
    r.takeAll (tokens.drop mid) = .error ⟨complaint, tokenAt tokens mid⟩ := by
  rw [h.drop_eq hmid, Reading.takeAll, Reading.take, hstep]
  rfl

theorem succ_le (hkind : (tokenAt tokens mid).kind ≠ .eof) : mid + 1 ≤ last :=
  next_eq hkind ▸ h.next_le hmid

/-- Readings that take the next token alike are alike. -/
theorem takeAll_congr {r' : Reading} (hstep : r.step (tokenAt tokens mid) = r'.step (tokenAt tokens mid)) :
    r.takeAll (tokens.drop mid) = r'.takeAll (tokens.drop mid) := by
  rw [h.drop_eq hmid, Reading.takeAll, Reading.takeAll, Reading.take, Reading.take, hstep]

theorem swap (r' : Reading) (hstep : r.step (tokenAt tokens mid) = r'.step (tokenAt tokens mid)) {act : Act α}
    (hact : Mirrors tokens last r' act mid post) : Mirrors tokens last r act mid post := by
  rw [Mirrors, takeAll_congr h hmid hstep]
  exact hact

theorem fail {complaint : Complaint} (hstep : r.step (tokenAt tokens mid) = .error complaint) :
    Mirrors tokens last r (.fail complaint) mid post :=
  takeAll_error h hmid hstep

theorem move {post : Unit → Nat → Reading → Prop} (r' : Reading) (hkind : (tokenAt tokens mid).kind ≠ .eof)
    (hstep : r.step (tokenAt tokens mid) = .ok r') (hpost : mid + 1 ≤ last → post () (mid + 1) r') :
    Mirrors tokens last r move mid post := by
  refine (Act.meets_move _).mpr ?_
  rw [next_eq hkind]
  exact ⟨r', hpost (succ_le h hmid hkind), takeAll_ok h hmid hstep⟩

theorem expect {kind : Kind} {complaint : Complaint} {post : Unit → Nat → Reading → Prop} (r' : Reading)
    (hkind : kind ≠ .eof)
    (hyes : (tokenAt tokens mid).kind = kind → r.step (tokenAt tokens mid) = .ok r')
    (hno : (tokenAt tokens mid).kind ≠ kind → r.step (tokenAt tokens mid) = .error complaint)
    (hpost : mid + 1 ≤ last → post () (mid + 1) r') :
    Mirrors tokens last r (expect kind complaint) mid post := by
  refine (Act.meets_expect ..).mpr ⟨fun heq => ?_, fun hne => takeAll_error h hmid (hno hne)⟩
  have hne : (tokenAt tokens mid).kind ≠ .eof := heq ▸ hkind
  rw [next_eq hne]
  exact ⟨r', hpost (succ_le h hmid hne), takeAll_ok h hmid (hyes heq)⟩

theorem expectSome {read? : Kind → Option α} {complaint : Complaint} {post : α × Location → Nat → Reading → Prop}
    (next : α → Location → Reading) (hread : read? .eof = none)
    (hyes : ∀ value, read? (tokenAt tokens mid).kind = some value →
      r.step (tokenAt tokens mid) = .ok (next value (tokenAt tokens mid).location))
    (hno : read? (tokenAt tokens mid).kind = none → r.step (tokenAt tokens mid) = .error complaint)
    (hpost : ∀ value location, mid + 1 ≤ last → post (value, location) (mid + 1) (next value location)) :
    Mirrors tokens last r (expectSome read? complaint) mid post := by
  refine (Act.meets_expectSome ..).mpr ⟨fun value heq => ?_, fun hne => takeAll_error h hmid (hno hne)⟩
  have hne : (tokenAt tokens mid).kind ≠ .eof := fun heof => by
    rw [heof, hread] at heq
    cases heq
  rw [next_eq hne]
  exact ⟨_, hpost value _ (succ_le h hmid hne), takeAll_ok h hmid (hyes value heq)⟩

theorem accept {kind : Kind} {yes no : Act α} (r' : Reading) (hkind : kind ≠ .eof)
    (hyes : (tokenAt tokens mid).kind = kind → r.step (tokenAt tokens mid) = .ok r')
    (hact : mid + 1 ≤ last → Mirrors tokens last r' yes (mid + 1) post)
    (hno : (tokenAt tokens mid).kind ≠ kind → Mirrors tokens last r no mid post) :
    Mirrors tokens last r (accept kind >>= fun b => if b = true then yes else no) mid post := by
  refine (Act.meets_bind ..).mpr ((Act.meets_accept ..).mpr ⟨fun heq => ?_, hno⟩)
  have hne : (tokenAt tokens mid).kind ≠ .eof := heq ▸ hkind
  rw [next_eq hne, takeAll_ok h hmid (hyes heq)]
  exact hact (succ_le h hmid hne)

omit h

theorem invoke {g : Call α} {leave : α → Reading}
    (hsame : ∀ outcome stop, Agreement tokens g mid outcome stop → Same tokens r mid leave outcome stop)
    (hpost : ∀ value stop, stop ≤ last → g.Leaves tokens mid value stop → post value stop (leave value)) :
    Mirrors tokens last r (invoke g) mid post := by
  refine (Act.meets_invoke ..).mpr ⟨trivial, ?_, ?_⟩
  · rintro value stop ⟨hprogress, hagree⟩
    obtain ⟨-, hstop, hvalue⟩ := hprogress hmid
    obtain ⟨_, rfl, hfinal⟩ := hsame _ _ (hagree hmid)
    exact ⟨leave value, hpost value stop hstop (hvalue value rfl).2, hfinal⟩
  · rintro complaint stop ⟨-, hagree⟩
    exact hsame _ _ (hagree hmid)

end

end Mirrors

/-! ### Tokens -/

theorem kind_of_name {kind : Kind} {name : String} (h : name? kind = some name) : kind = .identifier name := by
  cases kind with
  | identifier other => exact congrArg Kind.identifier (Option.some.inj h)
  | _ => cases h

theorem kind_of_text {kind : Kind} {text : String} (h : text? kind = some text) : kind = .string text := by
  cases kind with
  | string other => exact congrArg Kind.string (Option.some.inj h)
  | _ => cases h

theorem step_binary {t : Token} {op : BinaryOp} (hc : continuation? t.kind = some (.binary op)) (left : Expr)
    (hole : Hole) : (Reading.operator left hole).step t =
      .ok (.operand (.right (absorb op.precedence left hole).1 op (absorb op.precedence left hole).2)) := by
  obtain ⟨kind, location⟩ := t
  cases kind with
  | mark m => cases m <;> simp_all [continuation?, Mark.binary?, Reading.step, Hole.extend]
  | _ => cases hc

theorem step_unary {t : Token} {op : UnaryOp} (hop : unary? t.kind = some op) (hole : Hole) :
    (Reading.operand hole).step t = .ok (.operand (.operand op t.location hole)) := by
  obtain ⟨kind, location⟩ := t
  cases kind with
  | mark m => cases m <;> cases hop <;> rfl
  | _ => cases hop

theorem step_whole {e : Expr} {hole : Hole} {t : Token} (hnot : continuesExpr t.kind = false) :
    (Reading.operator e hole).step t = hole.fill e t :=
  Hole.extend_of_not_continuesExpr hnot

/-- Where an expression has ended a statement, the next token starts another one. -/
theorem step_ended {e : Expr} {hole : Hole} {scope : Scope} {t : Token} (hnot : continuesExpr t.kind = false)
    (hended : hole.ended? e = some scope) :
    (Reading.operator e hole).step t = (Reading.statement none scope).step t := by
  rw [step_whole hnot, Hole.fill_of_ended? hended]
  rfl

/-- Where an operator does not bind tighter than the one before it, the one before it has its right operand. -/
theorem step_right {left right : Expr} {op : BinaryOp} {outer : Hole} {t : Token}
    (hle : ∀ c, continuation? t.kind = some c → c.precedence ≤ op.precedence) :
    (Reading.operator right (.right left op outer)).step t =
      (Reading.operator (.binary op left right left.location) outer).step t := by
  cases hc : continuation? t.kind with
  | none =>
      by_cases hassign : t.kind = .mark .assign
      · simp [Reading.step, Hole.extend, hassign, absorb]
      · have hnot := continuesExpr_eq_false hc hassign
        rw [step_whole hnot, step_whole hnot]
        rfl
  | some c =>
      have hprec := hle c hc
      cases c with
      | suffix => cases op <;> exact absurd hprec (by decide)
      | binary next =>
          have habsorb : absorb next.precedence right (.right left op outer) =
              absorb next.precedence (.binary op left right left.location) outer := if_pos hprec
          rw [step_binary hc, step_binary hc, habsorb]

/-- Where a statement starts with no word of its own, it starts as an expression does. -/
theorem step_expression {scope : Scope} {doc : Option String} {t : Token} (hopens : scope.Opens doc t.kind)
    (hword : ∀ word ∈ [Keyword.importWord, .letWord, .constWord, .fnWord, .ifWord, .whileWord, .returnWord],
      t.kind ≠ .keyword word) :
    (Reading.statement doc scope).step t = (Reading.operand (.statement t.location scope)).step t := by
  obtain ⟨kind, location⟩ := t
  cases kind with
  | eof => exact absurd hopens id
  | doc text => exact absurd hopens id
  | keyword word =>
      have hne : ∀ w ∈ [Keyword.importWord, .letWord, .constWord, .fnWord, .ifWord, .whileWord, .returnWord],
          word ≠ w := fun w hw heq => hword w hw (congrArg Kind.keyword heq)
      cases word <;> first | rfl | exact absurd rfl (hne _ (by decide))
  | mark m =>
      cases m with
      | closeBrace =>
          cases scope with
          | program done loc => rfl
          | _ => cases hopens
      | semicolon =>
          cases doc with
          | none => exact absurd rfl hopens
          | some text => rfl
      | _ => rfl
  | _ => rfl

/-! ### Bodies of statements -/

section Bodies

variable {pos : Nat} (h : EndsAt tokens last) (hpos : pos ≤ last)

include hpos

theorem mirrors_program :
    Mirrors tokens last (.statement none (.program [] (tokenAt tokens pos).location)) (body .program) pos
      fun p _ r => r = .statement none (.program p.body p.location) := by
  refine .look (.bind (.invoke hpos (fun _ _ hsame => hsame (.program [] _) rfl) fun all stop _ _ => ?_))
  exact .pure rfl

/-- Behind a statement semicolons may stand. -/
theorem mirrors_end (scope : Scope) (s : Stmt) :
    Mirrors tokens last (.statement none (scope.push s)) (do invoke .semicolons; return s) pos
      fun s _ r => r = .statement none (scope.push s) :=
  .bind (.invoke hpos (fun _ _ hsame => hsame _) fun _ _ _ _ => .pure rfl)

include h

theorem mirrors_semicolons (scope : Scope) :
    Mirrors tokens last (.statement none scope) (body .semicolons) pos fun _ _ r => r = .statement none scope := by
  refine .accept h hpos (.statement none scope) mark_ne_eof (fun hkind => ?_) (fun hnext => ?_) fun _ => .pure rfl
  · simp [Reading.step, Scope.begin, hkind]
  · exact .invoke hnext (fun _ _ hsame => hsame scope) fun _ _ _ _ => rfl

theorem mirrors_documentation (seen : Option String) (scope : Scope) :
    Mirrors tokens last (.statement seen scope) (body (.documentation seen)) pos
      fun doc _ r => r = .statement doc scope := by
  refine .look ?_
  split
  · next text hkind =>
    refine .bind (.move h hpos (.statement (some text) scope) (by simp [hkind]) ?_ fun hnext => ?_)
    · simp [Reading.step, Scope.begin, hkind]
    · exact .invoke hnext (fun _ _ hsame => hsame scope) fun _ _ _ _ => rfl
  · exact .pure rfl

theorem mirrors_statements (base : Scope) (done : List Stmt) :
    Mirrors tokens last (.statement none (base.append done)) (body (.statements base.braced done)) pos
      fun all _ r => r = .statement none (base.append all) := by
  refine .bind (.invoke hpos (fun _ _ hsame => hsame (base.append done)) fun _ mid hmid hsemi => ?_)
  refine .bind (.invoke hmid (fun _ _ hsame => hsame (base.append done)) fun doc stop hstop hdoc => .look ?_)
  split
  · next hend =>
    refine .swap h hstop (.statement none (base.append done)) ?_ (.pure rfl)
    rcases hend with heof | ⟨-, hbrace⟩
    · simp [Reading.step, Scope.begin, heof]
    · simp [Reading.step, Scope.begin, hbrace]
  · next hend =>
    have hopens : (base.append done).Opens doc (tokenAt tokens stop).kind := by
      unfold Scope.Opens
      split
      · next heof => exact hend (.inl heof)
      · next text hkind => exact hdoc.1 text hkind
      · next hbrace =>
        rw [Scope.braced_append, Bool.eq_false_iff]
        exact fun hbraced => hend (.inr ⟨hbraced, hbrace⟩)
      · next hkind =>
        intro hnone
        obtain rfl := (hdoc.2 hnone).2
        exact hsemi hkind
      · trivial
    refine .bind (.invoke hstop (fun _ _ hsame => hsame _ hopens) fun s next hnext _ => ?_)
    rw [Scope.append_push]
    exact .invoke hnext (fun _ _ hsame => hsame base rfl) fun _ _ _ _ => rfl

theorem mirrors_block (base : Scope) (leave : List Stmt → Reading)
    (hclose : ∀ all, (base.append all).close = .ok (leave all)) :
    Mirrors tokens last (.block base) (body .block) pos fun all _ r => r = leave all := by
  have hbraced : base.braced = true := by
    cases base with
    | program done location => cases hclose []
    | _ => rfl
  refine .bind (.expect h hpos (.statement none (base.append [])) mark_ne_eof ?_ ?_ fun hnext => ?_)
  · intro hkind
    rw [Scope.append_nil]
    exact if_pos hkind
  · exact fun hkind => if_neg hkind
  refine .bind (.invoke hnext (fun _ _ hsame => hsame base hbraced) fun all mid hmid hleaves => ?_)
  refine .bind (.expect h hmid (leave all) mark_ne_eof ?_ ?_ fun _ => .pure rfl)
  · intro hkind
    simp [Reading.step, Scope.begin, hkind, hclose]
  · intro hkind
    have heof : (tokenAt tokens mid).kind = .eof := hleaves.resolve_right fun hbrace => hkind hbrace.2
    simp only [Reading.step, Scope.begin, heof]
    cases base with
    | program done location => cases hbraced
    | _ => rfl

theorem mirrors_importedNames {post : List String → Nat → Reading → Prop} (location : Location) (scope : Scope)
    (hpost : ∀ names stop, stop ≤ last → post names stop (.importFrom location names scope)) :
    Mirrors tokens last (.importHead location scope) importedNames pos post := by
  refine .accept h hpos (.importName location [] scope) mark_ne_eof (fun hkind => ?_) (fun hnext => ?_) fun hkind => ?_
  · simp [Reading.step, hkind]
  · exact .invoke hnext (fun _ _ hsame => hsame (.imports location scope)) fun names stop hstop _ =>
      hpost names stop hstop
  · refine .bind (.expectSome h hpos (fun name _ => .importFrom location [name] scope) rfl ?_ ?_ fun name _ hnext => ?_)
    · intro name hname
      simp [Reading.step, kind_of_name hname]
    · intro hname
      simp only [Reading.step]
      split <;> simp_all [name?]
    · exact .pure (hpost [name] _ hnext)

theorem mirrors_import (doc : Option String) (scope : Scope)
    (hkind : (tokenAt tokens pos).kind = .keyword .importWord) :
    Mirrors tokens last (.statement doc scope) (body .importStatement) pos
      fun s _ r => r = .statement none (scope.push s) := by
  refine .look (.bind (.move h hpos (.importHead (tokenAt tokens pos).location scope) (by simp [hkind])
    (by simp [Reading.step, Scope.begin, hkind]) fun hnext => ?_))
  refine .bind (mirrors_importedNames h hnext _ scope fun names mid hmid => ?_)
  refine .bind (.expect h hmid (.importSource _ names scope) keyword_ne_eof (fun hfrom => if_pos hfrom)
    (fun hfrom => if_neg hfrom) fun hsource => ?_)
  refine .bind (.expectSome h hsource (fun source _ => .statement none (scope.push (.imports names source _))) rfl
    (fun source htext => ?_) (fun htext => ?_) fun source _ _ => .pure rfl)
  · simp [Reading.step, kind_of_text htext]
  · simp only [Reading.step]
    split <;> simp_all [text?]

/-- The value behind a mark fills the place that the mark leads to. -/
theorem mirrors_valueBehind {r : Reading} {m : Mark} {post : Option Expr → Nat → Reading → Prop} (hole : Hole)
    (hplain : hole.Plain)
    (hmark : (tokenAt tokens pos).kind = .mark m → r.step (tokenAt tokens pos) = .ok (.operand hole))
    (hsome : ∀ value stop, stop ≤ last → continuesExpr (tokenAt tokens stop).kind = false →
      post (some value) stop (.operator value hole))
    (hnone : (tokenAt tokens pos).kind ≠ .mark m → post none pos r) :
    Mirrors tokens last r (valueBehind m) pos post := by
  refine .accept h hpos (.operand hole) mark_ne_eof hmark (fun hnext => ?_) fun hkind => .pure (hnone hkind)
  refine .bind (.invoke hnext (fun _ _ hsame => hsame hole hplain) fun value stop hstop hnot => ?_)
  exact .pure (hsome value stop hstop hnot)

theorem mirrors_declaration (doc : Option String) (scope : Scope)
    (hkind : (tokenAt tokens pos).kind = .keyword .letWord ∨ (tokenAt tokens pos).kind = .keyword .constWord) :
    Mirrors tokens last (.statement doc scope) (body (.declaration doc)) pos
      fun s _ r => r = .statement none (scope.push s) := by
  refine .look (.bind (.move h hpos
    (.declaredName (decide ((tokenAt tokens pos).kind = .keyword .constWord)) doc scope) ?_ ?_ fun hnext => ?_))
  · rcases hkind with hkind | hkind <;> simp [hkind]
  · rcases hkind with hkind | hkind <;> simp [Reading.step, Scope.begin, hkind]
  refine .bind (.expectSome h hnext
    (fun name location =>
      .initial (decide ((tokenAt tokens pos).kind = .keyword .constWord)) name doc location scope)
    rfl (fun name hname => ?_) (fun hname => ?_) fun name location hnext => ?_)
  · simp [Reading.step, kind_of_name hname]
  · simp only [Reading.step]
    split <;> simp_all [name?]
  split
  · next hconst =>
    refine .bind (.expect h hnext (.operand (.initial true name doc location scope)) mark_ne_eof (fun hassign => ?_)
      (fun hassign => ?_) fun hvalue => ?_)
    · simp [Reading.step, hassign, hconst]
    · simp [Reading.step, hassign, hconst]
    refine .bind (.invoke hvalue (fun _ _ hsame => hsame _ trivial) fun value stop hstop hnot => ?_)
    exact .swap h hstop _ (step_ended hnot rfl) (.pure rfl)
  · next hlet =>
    refine .bind (mirrors_valueBehind h hnext (.initial false name doc location scope) trivial
      (fun hassign => ?_) (fun value stop hstop hnot => ?_) fun hassign => ?_)
    · simp [Reading.step, hassign, hlet]
    · exact .swap h hstop _ (step_ended hnot rfl) (.pure rfl)
    · refine .swap h hnext (.statement none (scope.push (.declare false name none doc location))) ?_ (.pure rfl)
      simp [Reading.step, hassign, hlet]

theorem mirrors_function (name : String) (location : Location) (doc : Option String) (scope : Scope)
    (hkind : (tokenAt tokens pos).kind = .keyword .fnWord)
    (hname : tokenAt tokens (pos + 1) = ⟨.identifier name, location⟩) :
    Mirrors tokens last (.statement doc scope) (body (.function name location doc)) pos
      fun s _ r => r = .statement none (scope.push s) := by
  refine .bind (.move h hpos (.functionHead doc (tokenAt tokens pos).location scope) (by simp [hkind])
    (by simp [Reading.step, Scope.begin, hkind]) fun hnext => ?_)
  refine .bind (.move h hnext (.parameters (.named name doc location scope)) (by simp [hname])
    (by simp [Reading.step, hname]) fun hnext => ?_)
  refine .bind (.invoke hnext (fun _ _ hsame => hsame _) fun parameters mid hmid _ => ?_)
  refine .bind (.invoke hmid (fun _ _ hsame => hsame _ _ fun all => rfl) fun body stop hstop _ => ?_)
  exact .pure rfl

/-- The other branch of a conditional ends the whole chain. -/
theorem mirrors_otherBranch {post : Option (List Stmt) → Nat → Reading → Prop} (branch : Branch)
    (chain : List Branch) (scope : Scope)
    (hpost : ∀ other stop, stop ≤ last → post other stop (.statement none (scope.pushChain branch other chain))) :
    Mirrors tokens last (.afterBranch branch chain scope) otherBranch pos post := by
  refine .accept h hpos (.elseHead branch chain scope) keyword_ne_eof (fun hkind => if_pos hkind)
    (fun hnext => .look ?_) fun hkind => ?_
  · split
    · next hif =>
      refine .bind (.invoke hnext (fun _ _ hsame => hsame _ (branch :: chain) scope hif (if_pos hif))
        fun s stop hstop _ => ?_)
      exact .pure (hpost (some [s]) stop hstop)
    · next hif =>
      refine .swap h hnext (.block (.otherwise branch chain [] scope)) ?_ ?_
      · exact if_neg hif
      refine .bind (.invoke hnext (fun _ _ hsame => hsame _ _ fun all => rfl) fun other stop hstop _ => ?_)
      exact .pure (hpost (some other) stop hstop)
  · refine .swap h hpos (.statement none (scope.pushChain branch none chain)) ?_ ?_
    · exact if_neg hkind
    exact .pure (hpost none pos hpos)

theorem mirrors_conditional (enter : Reading) (chain : List Branch) (scope : Scope)
    (hkind : (tokenAt tokens pos).kind = .keyword .ifWord)
    (hstep : enter.step (tokenAt tokens pos) =
      .ok (.condition (.branch chain) (tokenAt tokens pos).location scope)) :
    Mirrors tokens last enter (body .conditional) pos
      fun s _ r => r = .statement none (scope.push (nest chain s)) := by
  refine .look (.bind (.move h hpos (.condition (.branch chain) (tokenAt tokens pos).location scope) (by simp [hkind])
    hstep fun hnext => ?_))
  refine .bind (.invoke hnext (fun _ _ hsame => hsame (.branch chain) _ scope rfl) fun condition mid hmid _ => ?_)
  refine .bind (.invoke hmid (fun _ _ hsame => hsame _ _ fun all => rfl) fun body mid hmid _ => ?_)
  exact .bind (mirrors_otherBranch h hmid ⟨condition, body, _⟩ chain scope fun other stop _ => .pure rfl)

theorem mirrors_loop (doc : Option String) (scope : Scope)
    (hkind : (tokenAt tokens pos).kind = .keyword .whileWord) :
    Mirrors tokens last (.statement doc scope) (body .loop) pos fun s _ r => r = .statement none (scope.push s) := by
  refine .look (.bind (.move h hpos (.condition .loop (tokenAt tokens pos).location scope) (by simp [hkind])
    (by simp [Reading.step, Scope.begin, hkind]) fun hnext => ?_))
  refine .bind (.invoke hnext (fun _ _ hsame => hsame .loop _ scope rfl) fun condition mid hmid _ => ?_)
  refine .bind (.invoke hmid (fun _ _ hsame => hsame _ _ fun all => rfl) fun body stop hstop _ => ?_)
  exact .pure rfl

theorem mirrors_result (doc : Option String) (scope : Scope)
    (hkind : (tokenAt tokens pos).kind = .keyword .returnWord) :
    Mirrors tokens last (.statement doc scope) (body .result) pos
      fun s _ r => r = .statement none (scope.push s) := by
  refine .look (.bind (.move h hpos (.result (tokenAt tokens pos).location scope) (by simp [hkind])
    (by simp [Reading.step, Scope.begin, hkind]) fun hnext => .look ?_))
  split
  · next hends =>
    refine .swap h hnext (.statement none (scope.push (.result none (tokenAt tokens pos).location))) ?_ (.pure rfl)
    refine Reading.step_of_ended? (if_pos ?_)
    simp only [List.mem_cons, List.not_mem_nil, or_false] at hends ⊢
    tauto
  · next hends =>
    refine .swap h hnext (.operand (.result (tokenAt tokens pos).location scope)) ?_ ?_
    · simp only [Reading.step]
      split <;> simp_all
    refine .bind (.invoke hnext (fun _ _ hsame => hsame _ trivial) fun value stop hstop hnot => ?_)
    exact .swap h hstop _ (step_ended hnot rfl) (.pure rfl)

theorem mirrors_condition (guard : Guard) (location : Location) (scope : Scope) :
    Mirrors tokens last (.condition guard location scope) (body (.condition guard.word)) pos
      fun e _ r => r = .block (guard.scope e location scope) := by
  refine .bind (.expect h hpos (.operand (guard.place location scope)) mark_ne_eof ?_ ?_ fun hnext => ?_)
  · intro hkind
    cases guard <;> exact if_pos hkind
  · intro hkind
    cases guard <;> exact if_neg hkind
  have hplain : (guard.place location scope).Plain := by cases guard <;> trivial
  refine .bind (.invoke hnext (fun _ _ hsame => hsame _ hplain) fun e mid hmid hnot => ?_)
  refine .bind (.expect h hmid (.block (guard.scope e location scope)) mark_ne_eof ?_ ?_ fun _ => .pure rfl)
  · intro hkind
    rw [step_whole hnot]
    cases guard <;> exact if_pos hkind
  · intro hkind
    rw [step_whole hnot]
    cases guard <;> exact if_neg hkind

theorem mirrors_parameters (owner : Callable) :
    Mirrors tokens last (.parameters owner) (body .parameters) pos
      fun names _ r => r = .block (owner.scope names) := by
  refine .bind (.expect h hpos (.parameterName owner []) mark_ne_eof (fun hkind => if_pos hkind)
    (fun hkind => if_neg hkind) fun hnext => ?_)
  exact .invoke hnext (fun _ _ hsame => hsame (.parameters owner)) fun _ _ _ _ => rfl

theorem mirrors_names {list : NameList} (site : NameSite list) (done : List String) :
    Mirrors tokens last (site.before done) (body (.names list done)) pos fun names _ r => r = site.behind names := by
  refine .accept h hpos (site.behind done) mark_ne_eof (site.close done _) (fun _ => .pure rfl) fun hopen => ?_
  refine .bind (.expectSome h hpos (fun name _ => site.after (list.add done name)) rfl (fun name hname => ?_)
    (site.missing done _ hopen) fun name _ hnext => ?_)
  · exact site.name done _ name (kind_of_name hname)
  refine .accept h hnext (site.before _) mark_ne_eof (site.comma _ _) (fun hmore => ?_) fun hcomma => ?_
  · exact .invoke hmore (fun _ _ hsame => hsame site) fun _ _ _ _ => rfl
  · refine .bind (.expect h hnext (site.behind _) mark_ne_eof (site.last _ _) (site.unclosed _ _ hcomma) fun _ => ?_)
    exact .pure rfl

theorem mirrors_expressionStatement (scope : Scope) :
    Mirrors tokens last (.operand (.statement (tokenAt tokens pos).location scope)) (terminated expressionStatement)
      pos fun s _ r => r = .statement none (scope.push s) := by
  refine .bind (.look (.bind (.invoke hpos (fun _ _ hsame => hsame _ trivial) fun e stop hstop hnot => ?_)))
  exact .swap h hstop _ (step_ended hnot rfl) (.pure (mirrors_end hstop scope _))

/-- A function without a name is an expression, which shows only at the token behind its first word. -/
theorem takeAll_lambda (doc : Option String) (scope : Scope)
    (hkind : (tokenAt tokens pos).kind = .keyword .fnWord) (hname : name? (tokenAt tokens (pos + 1)).kind = none) :
    (Reading.statement doc scope).takeAll (tokens.drop pos) =
      (Reading.operand (.statement (tokenAt tokens pos).location scope)).takeAll (tokens.drop pos) := by
  have hnext : pos + 1 ≤ last := Mirrors.succ_le h hpos (by simp [hkind])
  rw [Mirrors.takeAll_ok h hpos
    (show _ = Except.ok (Reading.functionHead doc (tokenAt tokens pos).location scope) by
      simp [Reading.step, Scope.begin, hkind]),
    Mirrors.takeAll_ok h hpos
    (show _ = Except.ok (Reading.parameters (.anonymous (tokenAt tokens pos).location
        (.statement (tokenAt tokens pos).location scope))) by simp [Reading.step, Hole.begin, hkind])]
  refine Mirrors.takeAll_congr h hnext ?_
  simp only [Reading.step]
  split <;> simp_all [name?]

theorem mirrors_statement (doc : Option String) (scope : Scope)
    (hopens : scope.Opens doc (tokenAt tokens pos).kind) :
    Mirrors tokens last (.statement doc scope) (body (.statement doc)) pos
      fun s _ r => r = .statement none (scope.push s) := by
  refine .look (.lookAhead ?_)
  split
  · next hkind =>
    exact .bind (.invoke hpos (fun _ _ hsame => hsame doc scope hkind) fun s stop hstop _ => mirrors_end hstop scope s)
  · next hkind =>
    exact .bind (.invoke hpos (fun _ _ hsame => hsame scope (.inl hkind)) fun s stop hstop _ =>
      mirrors_end hstop scope s)
  · next hkind =>
    exact .bind (.invoke hpos (fun _ _ hsame => hsame scope (.inr hkind)) fun s stop hstop _ =>
      mirrors_end hstop scope s)
  · next hkind =>
    split
    · next name hname =>
      have htoken : tokenAt tokens (pos + 1) = ⟨.identifier name, (tokenAt tokens (pos + 1)).location⟩ := by
        rw [← kind_of_name hname]
      exact .invoke hpos (fun _ _ hsame => hsame scope hkind htoken) fun _ _ _ _ => rfl
    · next hname =>
      rw [Mirrors, takeAll_lambda h hpos doc scope hkind hname]
      exact mirrors_expressionStatement h hpos scope
  · next hkind =>
    refine .invoke hpos (fun _ _ hsame => hsame _ [] scope hkind ?_) fun _ _ _ _ => rfl
    simp [Reading.step, Scope.begin, hkind]
  · next hkind => exact .invoke hpos (fun _ _ hsame => hsame doc scope hkind) fun _ _ _ _ => rfl
  · next hkind =>
    exact .bind (.invoke hpos (fun _ _ hsame => hsame doc scope hkind) fun s stop hstop _ => mirrors_end hstop scope s)
  · refine .swap h hpos _ (step_expression hopens ?_) (mirrors_expressionStatement h hpos scope)
    simp_all

/-! ### Bodies of expressions -/

theorem mirrors_assignment {hole : Hole} (hplain : hole.Plain) :
    Mirrors tokens last (.operand hole) (body .assignment) pos fun e _ r => r = .operator e hole := by
  refine .bind (.invoke hpos (fun _ _ hsame => hsame hole hplain.binds) fun target mid hmid _ => .look ?_)
  split
  · next hassign =>
    have hstep : (Reading.operator target hole).step (tokenAt tokens mid) =
        if target.isTarget then .ok (.operand (.assigned target hole)) else .error .assignmentTarget := by
      simp [Reading.step, Hole.extend, hassign, hplain.absorb]
    split
    · next htarget =>
      refine .bind (.move h hmid (.operand (.assigned target hole)) (by simp [hassign]) ?_ fun hnext => ?_)
      · rw [hstep, if_pos htarget]
      refine .bind (.invoke hnext (fun _ _ hsame => hsame (.assigned target hole) trivial)
        fun value stop hstop hnot => ?_)
      refine .swap h hstop (.operator (.assign target value target.location) hole) ?_ (.pure rfl)
      rw [step_whole hnot, step_whole hnot]
      rfl
    · next htarget => exact .fail h hmid (hstep.trans (if_neg htarget))
  · exact .pure rfl

omit h in
theorem mirrors_expression {floor : Nat} {hole : Hole} (hbinds : hole.Binds floor) :
    Mirrors tokens last (.operand hole) (body (.expression floor)) pos fun e _ r => r = .operator e hole := by
  refine .bind (.invoke hpos (fun _ _ hsame => hsame hole) fun left mid hmid _ => ?_)
  rw [hbinds.afterOperand]
  exact .invoke hmid (fun _ _ hsame => hsame hole hbinds) fun _ _ _ _ => rfl

omit h in
theorem mirrors_operations {floor : Nat} {hole : Hole} (hbinds : hole.Binds floor) (left : Expr) :
    Mirrors tokens last (.operator left hole) (body (.operations floor left)) pos
      fun e _ r => r = .operator e hole := by
  refine .look ?_
  split
  · next c hc =>
    split
    · exact .pure rfl
    · next hfloor =>
      refine .bind (.invoke hpos (fun _ _ hsame => hsame floor hole hbinds (Nat.lt_of_not_le hfloor) hc)
        fun e mid hmid _ => ?_)
      exact .invoke hmid (fun _ _ hsame => hsame hole hbinds) fun _ _ _ _ => rfl
  · exact .pure rfl

theorem mirrors_operation {floor : Nat} {hole : Hole} (hbinds : hole.Binds floor) (left : Expr) {c : Continuation}
    (hfloor : floor < c.precedence) (hc : continuation? (tokenAt tokens pos).kind = some c) :
    Mirrors tokens last (.operator left hole) (body (.operation left c)) pos fun e _ r => r = .operator e hole := by
  cases c with
  | suffix => exact .invoke hpos (fun _ _ hsame => hsame hole) fun _ _ _ _ => rfl
  | binary op =>
      have hkind : (tokenAt tokens pos).kind ≠ .eof := fun heof => by
        rw [heof] at hc
        cases hc
      refine .bind (.move h hpos (.operand (.right left op hole)) hkind ?_ fun hnext => ?_)
      · have habsorb : absorb op.precedence left hole = (left, hole) := hbinds.absorb hfloor left
        rw [step_binary hc, habsorb]
      refine .bind (.invoke hnext (fun _ _ hsame => hsame (.right left op hole) rfl) fun right stop hstop hle => ?_)
      exact .swap h hstop _ (step_right hle) (.pure rfl)

theorem mirrors_suffixes (left : Expr) (hole : Hole) :
    Mirrors tokens last (.operator left hole) (body (.suffixes left)) pos fun e _ r => r = .operator e hole := by
  refine .look ?_
  split
  · next hkind =>
    refine .bind (.move h hpos (.argument left [] hole) (by simp [hkind]) (by simp [Reading.step, Hole.extend, hkind])
      fun hnext => ?_)
    refine .bind (.invoke hnext (fun _ _ hsame => hsame _ (lists_arguments left hole)) fun arguments mid hmid _ => ?_)
    exact .invoke hmid (fun _ _ hsame => hsame hole) fun _ _ _ _ => rfl
  · next hkind =>
    refine .bind (.move h hpos (.operand (.key left hole)) (by simp [hkind])
      (by simp [Reading.step, Hole.extend, hkind]) fun hnext => ?_)
    refine .bind (.invoke hnext (fun _ _ hsame => hsame _ trivial) fun key mid hmid hnot => ?_)
    refine .bind (.expect h hmid (.operator (.index left key left.location) hole) mark_ne_eof (fun hclose => ?_)
      (fun hclose => ?_) fun hnext => ?_)
    · rw [step_whole hnot]
      exact if_pos hclose
    · rw [step_whole hnot]
      exact if_neg hclose
    exact .invoke hnext (fun _ _ hsame => hsame hole) fun _ _ _ _ => rfl
  · next hkind =>
    refine .bind (.move h hpos (.memberName left hole) (by simp [hkind]) (by simp [Reading.step, Hole.extend, hkind])
      fun hnext => ?_)
    refine .bind (.invoke hnext (fun _ _ hsame => hsame left hole) fun name mid hmid _ => ?_)
    exact .invoke hmid (fun _ _ hsame => hsame hole) fun _ _ _ _ => rfl
  · exact .pure rfl

theorem mirrors_memberName (object : Expr) (hole : Hole) :
    Mirrors tokens last (.memberName object hole) (body .memberName) pos
      fun name _ r => r = .operator (.member object name.1 name.2 object.location) hole := by
  refine .expectSome h hpos (fun name location => .operator (.member object name location object.location) hole) rfl
    (fun name hname => ?_) (fun hname => ?_) fun _ _ _ => rfl
  · simp only [Reading.step]
    split <;> simp_all [memberName?]
  · simp only [Reading.step]
    split <;> simp_all [memberName?]

theorem mirrors_operand (hole : Hole) :
    Mirrors tokens last (.operand hole) (body .operand) pos fun e _ r => r = afterOperand e hole := by
  refine .look ?_
  split
  · next op hop =>
    refine .bind (.move h hpos (.operand (.operand op (tokenAt tokens pos).location hole)) ?_ (step_unary hop hole)
      fun hnext => ?_)
    · intro heof
      rw [heof] at hop
      cases hop
    exact .bind (.invoke hnext (fun _ _ hsame => hsame _) fun e stop _ _ => .pure rfl)
  · next hop => exact .invoke hpos (fun _ _ hsame => hsame hole hop) fun _ _ _ _ => rfl

theorem mirrors_primary (hole : Hole) (hunary : unary? (tokenAt tokens pos).kind = none) :
    Mirrors tokens last (.operand hole) (body .primary) pos fun e _ r => r = afterOperand e hole := by
  refine .look ?_
  split
  · next value hkind =>
    exact .bind (.move h hpos _ (by simp [hkind]) (by simp only [Reading.step, Hole.begin, hkind]) fun _ => .pure rfl)
  · next value hkind =>
    exact .bind (.move h hpos _ (by simp [hkind]) (by simp only [Reading.step, Hole.begin, hkind]) fun _ => .pure rfl)
  · next name hkind =>
    exact .bind (.move h hpos _ (by simp [hkind]) (by simp only [Reading.step, Hole.begin, hkind]) fun _ => .pure rfl)
  · next hkind =>
    refine .bind (.move h hpos (.operand (.parenthesis hole)) (by simp [hkind])
      (by simp only [Reading.step, Hole.begin, hkind]) fun hnext => ?_)
    refine .bind (.invoke hnext (fun _ _ hsame => hsame _ trivial) fun e mid hmid hnot => ?_)
    refine .bind (.expect h hmid (afterOperand e hole) mark_ne_eof (fun hclose => ?_) (fun hclose => ?_)
      fun _ => .pure rfl)
    · rw [step_whole hnot]
      exact if_pos hclose
    · rw [step_whole hnot]
      exact if_neg hclose
  · next hkind =>
    refine .bind (.move h hpos (.element (tokenAt tokens pos).location [] hole) (by simp [hkind])
      (by simp only [Reading.step, Hole.begin, hkind]) fun hnext => ?_)
    refine .bind (.invoke hnext (fun _ _ hsame => hsame _ (lists_elements _ hole)) fun elements stop _ _ => ?_)
    exact .pure rfl
  · next hkind =>
    refine .bind (.move h hpos (.key (tokenAt tokens pos).location [] hole) (by simp [hkind])
      (by simp only [Reading.step, Hole.begin, hkind]) fun hnext => ?_)
    exact .bind (.invoke hnext (fun _ _ hsame => hsame _ hole) fun properties stop _ _ => .pure rfl)
  · next hkind =>
    refine .bind (.move h hpos (.parameters (.anonymous (tokenAt tokens pos).location hole)) (by simp [hkind])
      (by simp only [Reading.step, Hole.begin, hkind]) fun hnext => ?_)
    refine .bind (.invoke hnext (fun _ _ hsame => hsame _) fun parameters mid hmid _ => ?_)
    exact .bind (.invoke hmid (fun _ _ hsame => hsame _ _ fun all => rfl) fun body stop _ _ => .pure rfl)
  · refine .fail h hpos ?_
    simp only [Reading.step, Hole.begin]
    split <;> simp_all [unary?, Mark.unary?]

theorem mirrors_expressions {list : ExprList} {site : Sequence} (hlists : Lists list site) (done : List Expr) :
    Mirrors tokens last (site.before done) (body (.expressions list done)) pos
      fun all _ r => r = site.behind all := by
  refine .accept h hpos (site.behind done) mark_ne_eof (fun hstop => hlists.close hstop done) (fun _ => .pure rfl)
    fun hopen => ?_
  refine .swap h hpos (.operand (site.place done)) (hlists.opens done _ hopen) ?_
  refine .bind (.invoke hpos (fun _ _ hsame => hsame _ (site.plain done)) fun e mid hmid hnot => ?_)
  refine .accept h hmid (site.before (done ++ [e])) mark_ne_eof (fun hcomma => ?_) (fun hnext => ?_) fun hcomma => ?_
  · rw [step_whole hnot, Lists.comma hcomma]
  · exact .invoke hnext (fun _ _ hsame => hsame site hlists) fun _ _ _ _ => rfl
  refine .bind (.expect h hmid (site.behind (done ++ [e])) mark_ne_eof (fun hstop => ?_) (fun hstop => ?_)
    fun _ => .pure rfl)
  · rw [step_whole hnot, hlists.last hstop]
  · rw [step_whole hnot, hlists.unclosed done e _ hcomma hstop]

/-- Behind an entry of an object there is no reading of its own, only what is done with the next token. -/
theorem mirrors_entry {r : Reading} {location : Location} {done : List Property} {hole : Hole}
    (hstep : r.step (tokenAt tokens pos) = afterEntry location done hole (tokenAt tokens pos)) :
    Mirrors tokens last r (do
      if ← accept (.mark .comma) then invoke (.properties done)
      else do
        expect (.mark .closeBrace) .objectEnd
        return done) pos fun all _ r => r = afterOperand (.object all location) hole := by
  refine .accept h hpos (.key location done hole) mark_ne_eof (fun hcomma => ?_) (fun hnext => ?_) fun hcomma => ?_
  · simp [hstep, afterEntry, hcomma]
  · exact .invoke hnext (fun _ _ hsame => hsame location hole) fun _ _ _ _ => rfl
  refine .bind (.expect h hpos (afterOperand (.object done location) hole) mark_ne_eof (fun hclose => ?_)
    (fun hclose => ?_) fun _ => .pure rfl)
  · simp [hstep, afterEntry, hclose]
  · rw [hstep, afterEntry]
    split <;> simp_all

theorem mirrors_properties (location : Location) (done : List Property) (hole : Hole) :
    Mirrors tokens last (.key location done hole) (body (.properties done)) pos
      fun all _ r => r = afterOperand (.object all location) hole := by
  refine .accept h hpos (afterOperand (.object done location) hole) mark_ne_eof (fun hclose => ?_)
    (fun _ => .pure rfl) fun hopen => ?_
  · simp [Reading.step, hclose]
  refine .bind (.expectSome h hpos (fun key place => .value location done key place hole) rfl (fun key hkey => ?_)
    (fun hkey => ?_) fun key place hnext => ?_)
  · simp only [Reading.step]
    split <;> simp_all [key?]
  · simp only [Reading.step]
    split <;> simp_all [key?]
  refine .bind (mirrors_valueBehind h hnext (.property location done key place hole) trivial (fun hcolon => ?_)
    (fun value mid hmid hnot => ?_) fun hcolon => ?_)
  · exact if_pos hcolon
  · exact mirrors_entry h hmid (step_whole hnot)
  · exact mirrors_entry h hnext (if_neg hcolon)

end Bodies

theorem meets_agreement (h : EndsAt tokens last) (f : Call α) (pos : Nat) :
    (body f).Meets tokens (fun _ _ => True) (Reliance tokens last) pos
      fun outcome stop => pos ≤ last → Agreement tokens f pos outcome stop := by
  refine Act.meets_forall fun hpos => ?_
  cases f with
  | program => exact mirrors_program hpos
  | statements inBlock done =>
      refine Act.meets_forall fun base => Act.meets_forall fun hbraced => ?_
      subst hbraced
      exact mirrors_statements h hpos base done
  | semicolons => exact Act.meets_forall fun scope => mirrors_semicolons h hpos scope
  | documentation seen => exact Act.meets_forall fun scope => mirrors_documentation h hpos seen scope
  | statement doc =>
      exact Act.meets_forall fun scope => Act.meets_forall fun hopens => mirrors_statement h hpos doc scope hopens
  | importStatement =>
      exact Act.meets_forall fun doc => Act.meets_forall fun scope => Act.meets_forall fun hkind =>
        mirrors_import h hpos doc scope hkind
  | declaration doc =>
      exact Act.meets_forall fun scope => Act.meets_forall fun hkind => mirrors_declaration h hpos doc scope hkind
  | function name location doc =>
      exact Act.meets_forall fun scope => Act.meets_forall fun hkind => Act.meets_forall fun hname =>
        mirrors_function h hpos name location doc scope hkind hname
  | conditional =>
      exact Act.meets_forall fun enter => Act.meets_forall fun chain => Act.meets_forall fun scope =>
        Act.meets_forall fun hkind => Act.meets_forall fun hstep =>
          mirrors_conditional h hpos enter chain scope hkind hstep
  | loop =>
      exact Act.meets_forall fun doc => Act.meets_forall fun scope => Act.meets_forall fun hkind =>
        mirrors_loop h hpos doc scope hkind
  | result =>
      exact Act.meets_forall fun doc => Act.meets_forall fun scope => Act.meets_forall fun hkind =>
        mirrors_result h hpos doc scope hkind
  | condition word =>
      refine Act.meets_forall fun guard => Act.meets_forall fun location => Act.meets_forall fun scope =>
        Act.meets_forall fun hword => ?_
      subst hword
      exact mirrors_condition h hpos guard location scope
  | block =>
      exact Act.meets_forall fun base => Act.meets_forall fun leave => Act.meets_forall fun hclose =>
        mirrors_block h hpos base leave hclose
  | parameters => exact Act.meets_forall fun owner => mirrors_parameters h hpos owner
  | names list done => exact Act.meets_forall fun site => mirrors_names h hpos site done
  | assignment =>
      exact Act.meets_forall fun hole => Act.meets_forall fun hplain => mirrors_assignment h hpos hplain
  | expression floor =>
      exact Act.meets_forall fun hole => Act.meets_forall fun hbinds => mirrors_expression hpos hbinds
  | operations floor left =>
      exact Act.meets_forall fun hole => Act.meets_forall fun hbinds => mirrors_operations hpos hbinds left
  | operation left c =>
      exact Act.meets_forall fun floor => Act.meets_forall fun hole => Act.meets_forall fun hbinds =>
        Act.meets_forall fun hfloor => Act.meets_forall fun hc => mirrors_operation h hpos hbinds left hfloor hc
  | suffixes left => exact Act.meets_forall fun hole => mirrors_suffixes h hpos left hole
  | memberName =>
      exact Act.meets_forall fun object => Act.meets_forall fun hole => mirrors_memberName h hpos object hole
  | operand => exact Act.meets_forall fun hole => mirrors_operand h hpos hole
  | primary => exact Act.meets_forall fun hole => Act.meets_forall fun hunary => mirrors_primary h hpos hole hunary
  | expressions list done =>
      exact Act.meets_forall fun site => Act.meets_forall fun hlists => mirrors_expressions h hpos hlists done
  | properties done =>
      exact Act.meets_forall fun location => Act.meets_forall fun hole => mirrors_properties h hpos location done hole

/-- What a run gives back is what the reading comes to. -/
theorem agreement_of_runs (h : EndsAt tokens last) {f : Call α} {pos stop : Nat} (hpos : pos ≤ last)
    {outcome : Except Complaint α} (hrun : Runs tokens (body f) pos outcome stop) :
    Agreement tokens f pos outcome stop :=
  Runs.keeps (fun f pos outcome stop => pos ≤ last → Progress tokens last f pos outcome stop)
    (fun f pos outcome stop => pos ≤ last → Agreement tokens f pos outcome stop)
    (fun hrun hpos => h.progress_of_runs hpos hrun) (meets_agreement h) hrun (meets_agreement h f pos) hpos

end Descent

end ScriptLens.Syntax
