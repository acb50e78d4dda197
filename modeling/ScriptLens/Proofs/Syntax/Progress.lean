import ScriptLens.Proofs.Syntax.Descent

/-!
# Every call moves on

A procedure that gives something back has moved on, apart from the few that may find nothing to take, and it stops
before a token that cannot go on with what it has read.  The position never goes back and never passes the mark of
the end.  So a procedure that calls another one before it has moved on can only call one that comes later in a fixed
order, and there is no way to go on calling for ever.

The rules for acts (`Leads`) follow a body one act after the other, and each says where the position can be behind
the act.

Main statements: `meets_progress`, `EndsAt.exists_runs` and `EndsAt.progress_of_runs`.
-/

namespace ScriptLens.Syntax

namespace Descent

open Act (current following move invoke accept expect expectSome)

/-! ### Positions -/

/-- The only mark of the end is at `last`, and no token is behind it. -/
structure EndsAt (tokens : List Token) (last : Nat) : Prop where
  length : tokens.length = last + 1
  eof_iff : ∀ {pos}, pos ≤ last → ((tokenAt tokens pos).kind = .eof ↔ pos = last)

variable {tokens : List Token} {last pos mid : Nat}

theorem tokenAt_eq (h : pos < tokens.length) : tokenAt tokens pos = tokens[pos] := by
  simp [tokenAt, h]

theorem mark_ne_eof {m : Mark} : Kind.mark m ≠ .eof := by
  simp

theorem keyword_ne_eof {word : Keyword} : Kind.keyword word ≠ .eof := by
  simp

theorem le_next (tokens : List Token) (pos : Nat) : pos ≤ next tokens pos := by
  unfold next
  split <;> omega

theorem next_eq (h : (tokenAt tokens pos).kind ≠ .eof) : next tokens pos = pos + 1 :=
  if_neg h

theorem EndsAt.next_le (h : EndsAt tokens last) (hpos : pos ≤ last) : next tokens pos ≤ last := by
  unfold next
  split
  · exact hpos
  · rename_i hkind
    have hne : pos ≠ last := fun heq => hkind ((h.eof_iff hpos).mpr heq)
    omega

/-- Whatever is left to do, the position never goes back. -/
theorem Runs.le {α : Type} {act : Act α} {pos stop : Nat} {outcome : Except Complaint α}
    (h : Runs tokens act pos outcome stop) : pos ≤ stop := by
  induction h with
  | done => exact Nat.le_refl _
  | fail => exact Nat.le_refl _
  | look _ ih => exact ih
  | advance _ ih => exact Nat.le_trans (le_next tokens _) ih
  | call _ _ ihcall ihrest => exact Nat.le_trans ihcall ihrest
  | abort _ ihcall => exact ihcall

/-- Whatever is left to do, the position never passes the mark of the end. -/
theorem Runs.le_last {α : Type} {act : Act α} {pos stop : Nat} {outcome : Except Complaint α}
    (h : Runs tokens act pos outcome stop) (hend : EndsAt tokens last) (hpos : pos ≤ last) : stop ≤ last := by
  induction h with
  | done => exact hpos
  | fail => exact hpos
  | look _ ih => exact ih hpos
  | advance _ ih => exact ih (hend.next_le hpos)
  | call _ _ ihcall ihrest => exact ihrest (ihcall hpos)
  | abort _ ihcall => exact ihcall hpos

/-! ### What goes on with an expression -/

theorem Continuation.precedence_pos (c : Continuation) : 0 < c.precedence := by
  rcases c with _ | op
  · decide
  · cases op <;> decide

theorem continuation?_eq_suffix_iff {kind : Kind} : continuation? kind = some .suffix ↔
    kind = .mark .openParen ∨ kind = .mark .openBracket ∨ kind = .mark .dot := by
  cases kind with
  | mark m => cases m <;> simp [continuation?, Mark.binary?]
  | _ => simp [continuation?]

theorem continuesExpr_eq_false {kind : Kind} (h : continuation? kind = none) (hassign : kind ≠ .mark .assign) :
    continuesExpr kind = false := by
  cases kind with
  | mark m => cases m <;> simp_all [continuation?, Mark.binary?, continuesExpr]
  | _ => rfl

/-! ### What a call promises -/

variable {α β γ : Type}

/-- Whether a procedure that is called at `pos` and gives something back has moved on. -/
def Call.Gains (tokens : List Token) : Call α → (pos : Nat) → Prop
  | .program, _ | .statements _ _, _ | .semicolons, _ | .documentation _, _ | .operations _ _, _ => False
  | .result, pos => (tokenAt tokens pos).kind ≠ .eof
  | .operation _ c, pos => continuation? (tokenAt tokens pos).kind = some c
  | .suffixes _, pos => continuation? (tokenAt tokens pos).kind = some .suffix
  | _, _ => True

/-- What is known of the token behind a procedure that gives something back: it cannot go on with what was read. -/
def Call.Leaves (tokens : List Token) : Call α → (pos : Nat) → α → (stop : Nat) → Prop
  | .program, _, _, stop => (tokenAt tokens stop).kind = .eof
  | .statements inBlock _, _, _, stop =>
      (tokenAt tokens stop).kind = .eof ∨ inBlock = true ∧ (tokenAt tokens stop).kind = .mark .closeBrace
  | .semicolons, _, _, stop => (tokenAt tokens stop).kind ≠ .mark .semicolon
  | .documentation seen, pos, doc, stop =>
      (∀ text, (tokenAt tokens stop).kind ≠ .doc text) ∧ (doc = none → seen = none ∧ stop = pos)
  | .assignment, _, _, stop => continuesExpr (tokenAt tokens stop).kind = false
  | .expression floor, _, _, stop =>
      ∀ c, continuation? (tokenAt tokens stop).kind = some c → c.precedence ≤ floor
  | .operations floor _, _, _, stop =>
      ∀ c, continuation? (tokenAt tokens stop).kind = some c → c.precedence ≤ floor
  | _, _, _, _ => True

/-- What holds behind a procedure that gives something back. -/
def Call.Keeps (tokens : List Token) (f : Call α) (pos : Nat) (value : α) (stop : Nat) : Prop :=
  (f.Gains tokens pos → pos < stop) ∧ f.Leaves tokens pos value stop

/-- The position moves forward and stays before the end, and a procedure that gives something back has moved on. -/
def Progress (tokens : List Token) (last : Nat) : Contract := fun f pos outcome stop =>
  pos ≤ stop ∧ stop ≤ last ∧ ∀ value, outcome = .ok value → f.Keeps tokens pos value stop

/-- The order in which procedures may call each other before they have moved on. -/
def Call.rank : Call α → Nat
  | .program => 7
  | .statements _ _ => 6
  | .statement _ => 5
  | .importStatement | .declaration _ | .function _ _ _ | .conditional | .loop | .result
  | .expressions _ _ | .operations _ _ => 4
  | .assignment | .operation _ _ => 3
  | .expression _ => 2
  | .operand => 1
  | _ => 0

theorem Call.rank_lt (f : Call α) : f.rank < 8 := by
  cases f <;> simp [Call.rank]

/-- What a call costs: first of all the tokens that are left, and then its place in the order of procedures. -/
def Call.cost (last : Nat) (f : Call α) (pos : Nat) : Nat :=
  8 * (last - pos) + f.rank

/-! ### Rules for acts -/

/-- A body that was started at `pos` has come to `mid`, and has moved on if it has `gained`. -/
structure Reached (last pos mid : Nat) (gained : Prop) : Prop where
  le : pos ≤ mid
  bound : mid ≤ last
  gain : gained → pos < mid

theorem Reached.start (hpos : pos ≤ last) : Reached last pos pos False :=
  ⟨Nat.le_refl pos, hpos, False.elim⟩

/-- A token was taken. -/
theorem Reached.next {gained : Prop} (r : Reached last pos mid gained) (h : EndsAt tokens last)
    (hkind : (tokenAt tokens mid).kind ≠ .eof) : Reached last pos (next tokens mid) True where
  le := Nat.le_trans r.le (le_next tokens mid)
  bound := h.next_le r.bound
  gain := fun _ => by
    have hle := r.le
    rw [next_eq hkind]
    omega

theorem Reached.weaken {gained less : Prop} (r : Reached last pos mid gained) (h : less → gained) :
    Reached last pos mid less :=
  ⟨r.le, r.bound, fun hless => r.gain (h hless)⟩

theorem Reached.give {gained : Prop} {value : α} {post : α → Nat → Prop} (r : Reached last pos mid gained)
    (hpost : post value mid) : pos ≤ mid ∧ mid ≤ last ∧
      ∀ other, (.ok value : Except Complaint α) = .ok other → post other mid :=
  ⟨r.le, r.bound, fun _ h => Except.ok.inj h ▸ hpost⟩

/-- A complaint is left to those who called the body. -/
theorem Reached.complain {gained : Prop} {complaint : Complaint} {post : α → Nat → Prop}
    (r : Reached last pos mid gained) : pos ≤ mid ∧ mid ≤ last ∧
      ∀ value, (.error complaint : Except Complaint α) = .ok value → post value mid :=
  ⟨r.le, r.bound, fun _ h => nomatch h⟩

/-- Behind a body that has gained what it promises, the promise is kept. -/
theorem Reached.finish {gained : Prop} {f : Call α} {value : α} (r : Reached last pos mid gained)
    (hgain : f.Gains tokens pos → gained) (hleaves : f.Leaves tokens pos value mid) :
    f.Keeps tokens pos value mid :=
  ⟨fun hmoves => r.gain (hgain hmoves), hleaves⟩

theorem Reached.done {f : Call α} {value : α} (r : Reached last pos mid True)
    (hleaves : f.Leaves tokens pos value mid) : f.Keeps tokens pos value mid :=
  r.finish (fun _ => trivial) hleaves

/-- A body that has moved on may call every procedure. -/
theorem Reached.moved {gained : Prop} {f : Call γ} {g : Call β} (r : Reached last pos mid gained) (hgained : gained) :
    g.cost last mid < f.cost last pos := by
  have hlt := r.gain hgained
  have hbound := r.bound
  have hrank := g.rank_lt
  unfold Call.cost
  omega

/-- A body may call a procedure that comes later in the order. -/
theorem Reached.later {gained : Prop} {f : Call γ} {g : Call β} (r : Reached last pos mid gained)
    (hrank : g.rank < f.rank) : g.cost last mid < f.cost last pos := by
  have hle := r.le
  unfold Call.cost
  omega

/-- In the body of `f`, which was called at `pos`, what is left to do at `mid` stays between `pos` and the end, and
what it gives back is as `post` says. -/
def Leads (tokens : List Token) (last : Nat) (f : Call γ) (pos : Nat) (act : Act α) (mid : Nat)
    (post : α → Nat → Prop) : Prop :=
  act.Meets tokens (fun g mid => mid ≤ last ∧ g.cost last mid < f.cost last pos) (Progress tokens last) mid
    fun outcome stop => pos ≤ stop ∧ stop ≤ last ∧ ∀ value, outcome = .ok value → post value stop

namespace Leads

variable {gained : Prop} {f : Call γ} {post : α → Nat → Prop}

theorem fail {complaint : Complaint} (r : Reached last pos mid gained) :
    Leads tokens last f pos (.fail complaint) mid post := r.complain

theorem pure {value : α} (r : Reached last pos mid gained) (hpost : post value mid) :
    Leads tokens last f pos (pure value) mid post := r.give hpost

theorem bind {act : Act β} {rest : β → Act α}
    (h : Leads tokens last f pos act mid fun value stop => Leads tokens last f pos (rest value) stop post) :
    Leads tokens last f pos (act >>= rest) mid post := by
  refine (Act.meets_bind ..).mpr (Act.Meets.mono h fun outcome stop => ?_)
  cases outcome with
  | ok value => exact fun hstop => hstop.2.2 value rfl
  | error complaint => exact fun hstop => ⟨hstop.1, hstop.2.1, fun _ h => nomatch h⟩

theorem look {rest : Token → Act α} (h : Leads tokens last f pos (rest (tokenAt tokens mid)) mid post) :
    Leads tokens last f pos (current >>= rest) mid post := h

theorem lookAhead {rest : Token → Act α} (h : Leads tokens last f pos (rest (tokenAt tokens (mid + 1))) mid post) :
    Leads tokens last f pos (following >>= rest) mid post := h

/-- Moving on takes a token unless the end is reached. -/
theorem move {post : Unit → Nat → Prop} (h : EndsAt tokens last) (r : Reached last pos mid gained)
    (hpost : Reached last pos (next tokens mid) ((tokenAt tokens mid).kind ≠ .eof) → post () (next tokens mid)) :
    Leads tokens last f pos move mid post := by
  have r' : Reached last pos (next tokens mid) ((tokenAt tokens mid).kind ≠ .eof) :=
    ⟨Nat.le_trans r.le (le_next tokens mid), h.next_le r.bound, fun hkind => (r.next h hkind).gain trivial⟩
  exact r'.give (hpost r')

theorem expect {kind : Kind} {complaint : Complaint} {post : Unit → Nat → Prop} (h : EndsAt tokens last)
    (r : Reached last pos mid gained) (hkind : kind ≠ .eof)
    (hpost : Reached last pos (next tokens mid) True → post () (next tokens mid)) :
    Leads tokens last f pos (expect kind complaint) mid post := by
  refine (Act.meets_expect ..).mpr ⟨fun heq => ?_, fun _ => r.complain⟩
  have r' := r.next h (heq ▸ hkind)
  exact r'.give (hpost r')

theorem expectSome {read? : Kind → Option α} {complaint : Complaint} {post : α × Location → Nat → Prop}
    (h : EndsAt tokens last) (r : Reached last pos mid gained) (hread : read? .eof = none)
    (hpost : ∀ value, Reached last pos (next tokens mid) True → post value (next tokens mid)) :
    Leads tokens last f pos (expectSome read? complaint) mid post := by
  refine (Act.meets_expectSome ..).mpr ⟨fun value heq => ?_, fun _ => r.complain⟩
  have hkind : (tokenAt tokens mid).kind ≠ .eof := fun heof => by
    rw [heof, hread] at heq
    cases heq
  have r' := r.next h hkind
  exact r'.give (hpost _ r')

/-- Where a token of the given kind is taken if there is one, there are two ways to go on. -/
theorem accept {kind : Kind} {yes no : Act α} (h : EndsAt tokens last) (r : Reached last pos mid gained)
    (hkind : kind ≠ .eof)
    (hyes : Reached last pos (next tokens mid) True → Leads tokens last f pos yes (next tokens mid) post)
    (hno : (tokenAt tokens mid).kind ≠ kind → Leads tokens last f pos no mid post) :
    Leads tokens last f pos (accept kind >>= fun b => if b = true then yes else no) mid post := by
  refine (Act.meets_bind ..).mpr ((Act.meets_accept ..).mpr ⟨fun heq => ?_, hno⟩)
  exact hyes (r.next h (heq ▸ hkind))

theorem invoke {g : Call α} (r : Reached last pos mid gained) (hcost : g.cost last mid < f.cost last pos)
    (hpost : ∀ value stop, Reached last pos stop (gained ∨ g.Gains tokens mid) → g.Leaves tokens mid value stop →
      post value stop) :
    Leads tokens last f pos (invoke g) mid post := by
  refine (Act.meets_invoke ..).mpr ⟨⟨r.bound, hcost⟩, ?_, ?_⟩
  · rintro value stop ⟨hmid, hlast, hvalue⟩
    obtain ⟨hgains, hleaves⟩ := hvalue value rfl
    have r' : Reached last pos stop (gained ∨ g.Gains tokens mid) := by
      refine ⟨Nat.le_trans r.le hmid, hlast, ?_⟩
      rintro (hgained | hmoved)
      · exact Nat.lt_of_lt_of_le (r.gain hgained) hmid
      · exact Nat.lt_of_le_of_lt r.le (hgains hmoved)
    exact r'.give (hpost value stop r' hleaves)
  · rintro complaint stop ⟨hmid, hlast, -⟩
    exact ⟨Nat.le_trans r.le hmid, hlast, fun _ h => nomatch h⟩

/-- Behind a procedure that moves on, the body has moved on. -/
theorem call {g : Call α} (r : Reached last pos mid gained) (hcost : g.cost last mid < f.cost last pos)
    (hgains : g.Gains tokens mid)
    (hpost : ∀ value stop, Reached last pos stop True → g.Leaves tokens mid value stop → post value stop) :
    Leads tokens last f pos (Act.invoke g) mid post :=
  invoke r hcost fun value stop r' hleaves => hpost value stop (r'.weaken fun _ => .inr hgains) hleaves

/-- Behind a procedure that may find nothing to take, the body has not lost what it had gained. -/
theorem pass {g : Call α} (r : Reached last pos mid gained) (hcost : g.cost last mid < f.cost last pos)
    (hpost : ∀ value stop, Reached last pos stop gained → g.Leaves tokens mid value stop → post value stop) :
    Leads tokens last f pos (Act.invoke g) mid post :=
  invoke r hcost fun value stop r' hleaves => hpost value stop (r'.weaken .inl) hleaves

/-! ### Parts of bodies -/

theorem importedNames {post : List String → Nat → Prop} (h : EndsAt tokens last) (r : Reached last pos mid gained)
    (hpost : ∀ names stop, Reached last pos stop True → post names stop) :
    Leads tokens last f pos importedNames mid post := by
  refine .accept h r mark_ne_eof (fun r => ?_) fun _ => ?_
  · exact .call r (r.moved trivial) trivial fun names stop r _ => hpost names stop r
  · exact .bind (.expectSome h r rfl fun name r => .pure r (hpost _ _ r))

theorem valueBehind {m : Mark} {post : Option Expr → Nat → Prop} (h : EndsAt tokens last)
    (r : Reached last pos mid gained) (hpost : ∀ value stop, Reached last pos stop gained → post value stop) :
    Leads tokens last f pos (valueBehind m) mid post := by
  refine .accept h r mark_ne_eof (fun r => ?_) fun _ => .pure r (hpost none _ r)
  refine .bind (.call r (r.moved trivial) trivial fun value stop r _ => ?_)
  exact .pure r (hpost _ stop (r.weaken fun _ => trivial))

theorem otherBranch {post : Option (List Stmt) → Nat → Prop} (h : EndsAt tokens last)
    (r : Reached last pos mid gained) (hpost : ∀ other stop, Reached last pos stop gained → post other stop) :
    Leads tokens last f pos otherBranch mid post := by
  refine .accept h r keyword_ne_eof (fun r => .look ?_) fun _ => .pure r (hpost none _ r)
  split
  · refine .bind (.call r (r.moved trivial) trivial fun s stop r _ => ?_)
    exact .pure r (hpost _ stop (r.weaken fun _ => trivial))
  · refine .bind (.call r (r.moved trivial) trivial fun other stop r _ => ?_)
    exact .pure r (hpost _ stop (r.weaken fun _ => trivial))

/-- Behind a statement semicolons may stand. -/
theorem semicolons {doc : Option String} (s : Stmt) (r : Reached last pos mid True) :
    Leads tokens last (.statement doc) pos (do Act.invoke .semicolons; return s) mid
      ((Call.statement doc).Keeps tokens pos) :=
  .bind (.pass r (r.moved trivial) fun _ _ r _ => .pure r (r.done trivial))

end Leads

/-! ### Bodies -/

section Bodies

variable (h : EndsAt tokens last) (r : Reached last pos pos False)

include r

theorem leads_statement (doc : Option String) :
    Leads tokens last (.statement doc) pos (body (.statement doc)) pos
      ((Call.statement doc).Keeps tokens pos) := by
  have hexpr : Leads tokens last (.statement doc) pos (terminated expressionStatement) pos
      ((Call.statement doc).Keeps tokens pos) := by
    refine .bind (.look (.bind (.call r (r.later (by simp [Call.rank])) trivial fun e stop r _ => ?_)))
    exact .pure r (.semicolons _ r)
  have hword : ∀ g : Call Stmt, g.rank < (Call.statement doc).rank → g.Gains tokens pos →
      Leads tokens last (.statement doc) pos (terminated (invoke g)) pos
        ((Call.statement doc).Keeps tokens pos) :=
    fun g hrank hgains => .bind (.call r (r.later hrank) hgains fun s stop r _ => .semicolons s r)
  refine .look (.lookAhead ?_)
  split
  · exact hword .importStatement (by simp [Call.rank]) trivial
  · exact hword (.declaration doc) (by simp [Call.rank]) trivial
  · exact hword (.declaration doc) (by simp [Call.rank]) trivial
  · split
    · exact .call r (r.later (by simp [Call.rank])) trivial fun s stop r _ => r.done trivial
    · exact hexpr
  · exact .call r (r.later (by simp [Call.rank])) trivial fun s stop r _ => r.done trivial
  · exact .call r (r.later (by simp [Call.rank])) trivial fun s stop r _ => r.done trivial
  · next hkind => exact hword .result (by simp [Call.rank]) (by simp [Call.Gains, hkind])
  · exact hexpr

include h

theorem leads_suffixes (left : Expr) :
    Leads tokens last (.suffixes left) pos (body (.suffixes left)) pos
      ((Call.suffixes left).Keeps tokens pos) := by
  refine .look ?_
  split
  · next hkind =>
    refine .bind (.move h r fun r => ?_)
    refine .bind (.call r (r.moved (by simp [hkind])) trivial fun arguments mid r _ => ?_)
    exact .pass r (r.moved trivial) fun e stop r _ => r.done trivial
  · next hkind =>
    refine .bind (.move h r fun r => ?_)
    refine .bind (.call r (r.moved (by simp [hkind])) trivial fun key mid r _ => ?_)
    refine .bind (.expect h r mark_ne_eof fun r => ?_)
    exact .pass r (r.moved trivial) fun e stop r _ => r.done trivial
  · next hkind =>
    refine .bind (.move h r fun r => ?_)
    refine .bind (.call r (r.moved (by simp [hkind])) trivial fun name mid r _ => ?_)
    exact .pass r (r.moved trivial) fun e stop r _ => r.done trivial
  · next hparen hbracket hdot =>
    refine .pure r (r.finish (fun hsuffix => ?_) trivial)
    rcases continuation?_eq_suffix_iff.mp hsuffix with hkind | hkind | hkind
    · exact hparen hkind
    · exact hbracket hkind
    · exact hdot hkind

theorem leads_primary :
    Leads tokens last .primary pos (body .primary) pos (Call.primary.Keeps tokens pos) := by
  have hliteral : ∀ e, (tokenAt tokens pos).kind ≠ .eof →
      Leads tokens last .primary pos (do move; return e) pos (Call.primary.Keeps tokens pos) :=
    fun e hkind => .bind (.move h r fun r => .pure r (r.finish (fun _ => hkind) trivial))
  refine .look ?_
  split
  · next hkind => exact hliteral _ (by simp [hkind])
  · next hkind => exact hliteral _ (by simp [hkind])
  · next hkind => exact hliteral _ (by simp [hkind])
  · next hkind =>
    refine .bind (.move h r fun r => ?_)
    refine .bind (.call r (r.moved (by simp [hkind])) trivial fun e mid r _ => ?_)
    refine .bind (.expect h r mark_ne_eof fun r => ?_)
    exact .pure r (r.done trivial)
  · next hkind =>
    refine .bind (.move h r fun r => ?_)
    refine .bind (.call r (r.moved (by simp [hkind])) trivial fun elements stop r _ => ?_)
    exact .pure r (r.done trivial)
  · next hkind =>
    refine .bind (.move h r fun r => ?_)
    refine .bind (.call r (r.moved (by simp [hkind])) trivial fun properties stop r _ => ?_)
    exact .pure r (r.done trivial)
  · next hkind =>
    refine .bind (.move h r fun r => ?_)
    refine .bind (.call r (r.moved (by simp [hkind])) trivial fun parameters mid r _ => ?_)
    refine .bind (.call r (r.moved trivial) trivial fun body stop r _ => ?_)
    exact .pure r (r.done trivial)
  · exact .fail r

end Bodies

theorem meets_progress (h : EndsAt tokens last) (f : Call α) (pos : Nat) (hpos : pos ≤ last) :
    (body f).Meets tokens (fun g mid => mid ≤ last ∧ g.cost last mid < f.cost last pos) (Progress tokens last) pos
      (Progress tokens last f pos) := by
  have r := Reached.start hpos
  change Leads tokens last f pos (body f) pos (f.Keeps tokens pos)
  cases f with
  | program =>
      refine .look (.bind (.pass r (r.later (by simp [Call.rank])) fun all stop r hleaves => ?_))
      exact .pure r (r.finish id (hleaves.resolve_right fun hbrace => Bool.false_ne_true hbrace.1))
  | statements inBlock done =>
      refine .bind (.pass r (r.later (by simp [Call.rank])) fun _ mid r _ => ?_)
      refine .bind (.pass r (r.later (by simp [Call.rank])) fun doc mid r _ => .look ?_)
      split
      · next hstop => exact .pure r (r.finish id hstop)
      · refine .bind (.call r (r.later (by simp [Call.rank])) trivial fun s mid r _ => ?_)
        exact .pass r (r.moved trivial) fun all stop r hleaves => r.finish False.elim hleaves
  | semicolons =>
      refine .accept h r mark_ne_eof (fun r => ?_) fun hkind => .pure r (r.finish id hkind)
      exact .pass r (r.moved trivial) fun _ stop r hleaves => r.finish False.elim hleaves
  | documentation seen =>
      refine .look ?_
      split
      · next text hkind =>
        refine .bind (.move h r fun r => ?_)
        refine .pass r (r.moved (by simp [hkind])) fun doc stop r hleaves => ?_
        refine r.finish False.elim ⟨hleaves.1, fun hnone => ?_⟩
        cases (hleaves.2 hnone).1
      · next hother => exact .pure r (r.finish id ⟨hother, fun hnone => ⟨hnone, rfl⟩⟩)
  | statement doc => exact leads_statement r doc
  | importStatement =>
      refine .look (.bind (.move h r fun r => ?_))
      refine .bind (.importedNames h r fun names mid r => ?_)
      refine .bind (.expect h r keyword_ne_eof fun r => ?_)
      refine .bind (.expectSome h r rfl fun source r => ?_)
      exact .pure r (r.done trivial)
  | declaration doc =>
      refine .look (.bind (.move h r fun r => ?_))
      refine .bind (.expectSome h r rfl fun name r => ?_)
      split
      · refine .bind (.expect h r mark_ne_eof fun r => ?_)
        refine .bind (.call r (r.moved trivial) trivial fun value stop r _ => ?_)
        exact .pure r (r.done trivial)
      · refine .bind (.valueBehind h r fun value stop r => ?_)
        exact .pure r (r.done trivial)
  | function name location doc =>
      refine .bind (.move h r fun r => ?_)
      refine .bind (.move h r fun r => ?_)
      refine .bind (.call r (r.later (by simp [Call.rank])) trivial fun parameters mid r _ => ?_)
      refine .bind (.call r (r.moved trivial) trivial fun body mid r _ => ?_)
      exact .pure r (r.done trivial)
  | conditional =>
      refine .look (.bind (.move h r fun r => ?_))
      refine .bind (.call r (r.later (by simp [Call.rank])) trivial fun condition mid r _ => ?_)
      refine .bind (.call r (r.moved trivial) trivial fun body mid r _ => ?_)
      refine .bind (.otherBranch h r fun other stop r => ?_)
      exact .pure r (r.done trivial)
  | loop =>
      refine .look (.bind (.move h r fun r => ?_))
      refine .bind (.call r (r.later (by simp [Call.rank])) trivial fun condition mid r _ => ?_)
      refine .bind (.call r (r.moved trivial) trivial fun body mid r _ => ?_)
      exact .pure r (r.done trivial)
  | result =>
      refine .look (.bind (.move h r fun r => .look ?_))
      split
      · exact .pure r (r.finish id trivial)
      · refine .bind (.call r (r.later (by simp [Call.rank])) trivial fun value stop r _ => ?_)
        exact .pure r (r.done trivial)
  | condition guard =>
      refine .bind (.expect h r mark_ne_eof fun r => ?_)
      refine .bind (.call r (r.moved trivial) trivial fun e mid r _ => ?_)
      refine .bind (.expect h r mark_ne_eof fun r => ?_)
      exact .pure r (r.done trivial)
  | block =>
      refine .bind (.expect h r mark_ne_eof fun r => ?_)
      refine .bind (.pass r (r.moved trivial) fun all mid r _ => ?_)
      refine .bind (.expect h r mark_ne_eof fun r => ?_)
      exact .pure r (r.done trivial)
  | parameters =>
      refine .bind (.expect h r mark_ne_eof fun r => ?_)
      exact .call r (r.moved trivial) trivial fun names stop r _ => r.done trivial
  | names list done =>
      refine .accept h r mark_ne_eof (fun r => .pure r (r.done trivial)) fun _ => ?_
      refine .bind (.expectSome h r rfl fun name r => ?_)
      refine .accept h r mark_ne_eof (fun r => ?_) fun _ => ?_
      · exact .call r (r.moved trivial) trivial fun names stop r _ => r.done trivial
      · refine .bind (.expect h r mark_ne_eof fun r => ?_)
        exact .pure r (r.done trivial)
  | assignment =>
      refine .bind (.call r (r.later (by simp [Call.rank])) trivial fun target mid r hleaves => .look ?_)
      split
      · next hassign =>
        split
        · refine .bind (.move h r fun r => ?_)
          refine .bind (.call r (r.moved (by simp [hassign])) trivial fun value stop r hvalue => ?_)
          exact .pure r (r.done hvalue)
        · exact .fail r
      · next hkind =>
        refine .pure r (r.done (continuesExpr_eq_false ?_ hkind))
        exact Option.eq_none_iff_forall_ne_some.mpr fun c hc =>
          absurd (hleaves c hc) (Nat.not_le.mpr c.precedence_pos)
  | expression floor =>
      refine .bind (.call r (r.later (by simp [Call.rank])) trivial fun left mid r _ => ?_)
      exact .pass r (r.moved trivial) fun e stop r hleaves => r.done hleaves
  | operations floor left =>
      refine .look ?_
      split
      · next c hc =>
        split
        · next hfloor =>
          exact .pure r (r.finish id fun d hd => Option.some.inj (hc.symm.trans hd) ▸ hfloor)
        · refine .bind (.call r (r.later (by simp [Call.rank])) hc fun e mid r _ => ?_)
          exact .pass r (r.moved trivial) fun e stop r hleaves => r.finish False.elim hleaves
      · next hc =>
        refine .pure r (r.finish id fun d hd => ?_)
        rw [hc] at hd
        cases hd
  | operation left c =>
      cases c with
      | suffix => exact .invoke r (r.later (by simp [Call.rank])) fun e stop r _ => r.finish .inr trivial
      | binary op =>
          refine .bind (.move h r fun r => ?_)
          refine .bind (.call r (r.later (by simp [Call.rank])) trivial fun right stop r _ => ?_)
          exact .pure r (r.done trivial)
  | suffixes left => exact leads_suffixes h r left
  | memberName => exact .expectSome h r rfl fun name r => r.done trivial
  | operand =>
      refine .look ?_
      split
      · next op hop =>
        have hkind : (tokenAt tokens pos).kind ≠ .eof := fun heof => by
          rw [heof] at hop
          cases hop
        refine .bind (.move h r fun r => ?_)
        refine .bind (.call r (r.moved hkind) trivial fun e stop r _ => ?_)
        exact .pure r (r.done trivial)
      · exact .call r (r.later (by simp [Call.rank])) trivial fun e stop r _ => r.done trivial
  | primary => exact leads_primary h r
  | expressions list done =>
      refine .accept h r mark_ne_eof (fun r => .pure r (r.done trivial)) fun _ => ?_
      refine .bind (.call r (r.later (by simp [Call.rank])) trivial fun e mid r _ => ?_)
      refine .accept h r mark_ne_eof (fun r => ?_) fun _ => ?_
      · exact .call r (r.moved trivial) trivial fun all stop r _ => r.done trivial
      · refine .bind (.expect h r mark_ne_eof fun r => ?_)
        exact .pure r (r.done trivial)
  | properties done =>
      refine .accept h r mark_ne_eof (fun r => .pure r (r.done trivial)) fun _ => ?_
      refine .bind (.expectSome h r rfl fun key r => ?_)
      refine .bind (.valueBehind h r fun value mid r => ?_)
      refine .accept h r mark_ne_eof (fun r => ?_) fun _ => ?_
      · exact .call r (r.moved trivial) trivial fun all stop r _ => r.done trivial
      · refine .bind (.expect h r mark_ne_eof fun r => ?_)
        exact .pure r (r.done trivial)

/-- Every procedure runs to an end, wherever it is called. -/
theorem EndsAt.exists_runs (h : EndsAt tokens last) (f : Call α) (hpos : pos ≤ last) :
    ∃ outcome stop, Runs tokens (body f) pos outcome stop ∧ Progress tokens last f pos outcome stop :=
  Descent.exists_runs (meets_progress h) f hpos

theorem EndsAt.progress_of_runs (h : EndsAt tokens last) {f : Call α} (hpos : pos ≤ last) {stop : Nat}
    {outcome : Except Complaint α} (hrun : Runs tokens (body f) pos outcome stop) :
    Progress tokens last f pos outcome stop := by
  obtain ⟨outcome', stop', hrun', hprogress⟩ := h.exists_runs f hpos
  obtain ⟨rfl, rfl⟩ := hrun.unique hrun'
  exact hprogress

end Descent

/-- The mark of the end is the last token. -/
theorem Ended.endsAt {tokens : List Token} (h : Ended tokens) : Descent.EndsAt tokens (tokens.length - 1) := by
  obtain ⟨init, last, rfl, hlast, hinit⟩ := h
  refine ⟨by simp, fun {pos} hpos => ?_⟩
  have hlen : pos ≤ init.length := by simpa using hpos
  rw [Descent.tokenAt_eq (by simp; omega), List.getElem_append]
  split
  · next hlt =>
    have hne : pos ≠ (init ++ [last]).length - 1 := by simp; omega
    exact iff_of_false (hinit _ (List.getElem_mem hlt)) hne
  · next hge => 
    have heq : pos = (init ++ [last]).length - 1 := by simp; omega
    exact iff_of_true (by simpa using hlast) heq

end ScriptLens.Syntax
