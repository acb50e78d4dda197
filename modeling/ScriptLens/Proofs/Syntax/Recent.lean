import ScriptLens.Proofs.Syntax.SilentTokens

/-!
# What is remembered of the last tokens

Of the tokens before the last two, what was read keeps only the tree.  Of the last two it also keeps whether they
open a declaration and with which documentation, whether the last one is documentation, a dot or the end of the
text, and nothing else.  `Recent` is that much, and it follows the kinds of the tokens without the tree.

Main statements: `Reading.recent_step` and `Reading.recent_takeAll`.
-/

namespace ScriptLens

/-- A word that starts a declaration, with the name behind it. -/
@[simp] def Keyword.declares : Keyword → Bool
  | .letWord | .constWord | .fnWord => true
  | _ => false

/-- The word that declares a constant, or a variable. -/
def Keyword.ofDeclaration (constant : Bool) : Keyword :=
  if constant then .constWord else .letWord

/-- The text of documentation. -/
@[simp] def Kind.doc? : Kind → Option String
  | .doc text => some text
  | _ => none

/-- The word of a declaration with the documentation before it, if a token of this kind starts one.  A word
behind a dot is the name of a member. -/
@[simp] def Kind.opening? (afterDot : Bool) (doc : Option String) : Kind → Option (Keyword × Option String)
  | .keyword word => if word.declares && !afterDot then some (word, doc) else none
  | _ => none

namespace Syntax

/-- What is remembered of the last two tokens. -/
structure Recent where
  /-- The word that opens a declaration, with the documentation before it. -/
  opening : Option (Keyword × Option String) := none
  doc : Option String := none
  dot : Bool := false
  ended : Bool := false

/-- What is remembered after one more token. -/
@[simp] def Recent.next (recent : Recent) (kind : Kind) : Recent where
  opening := kind.opening? recent.dot recent.doc
  doc := kind.doc?
  dot := kind = .mark .dot
  ended := kind = .eof

/-- What is remembered by what comes next. -/
def Reading.recent : Reading → Recent
  | .statement doc _ => { doc }
  | .declaredName constant doc _ => { opening := some (.ofDeclaration constant, doc) }
  | .functionHead doc _ _ => { opening := some (.fnWord, doc) }
  | .parameters (.anonymous _ _) => { opening := some (.fnWord, none) }
  | .memberName _ _ => { dot := true }
  | .complete _ => { ended := true }
  | _ => {}

@[simp] theorem Reading.recent_start (tokens : List Token) : (Reading.start tokens).recent = {} := rfl

/-! ### One token -/

variable {t : Token} {r next : Reading} {recent : Recent}

@[simp] theorem recent_afterOperand (e : Expr) (hole : Hole) : (afterOperand e hole).recent = {} := by
  fun_induction afterOperand e hole with
  | case1 e op loc outer ih => exact ih
  | case2 e hole h => rfl

theorem Scope.recent_close {scope : Scope} (h : scope.close = .ok next) : next.recent = {} := by
  cases scope <;> cases h
  · rfl
  · exact recent_afterOperand _ _
  · rfl
  · rfl
  · rfl

theorem Scope.recent_finish {scope : Scope} (h : scope.finish = .ok next) :
    next.recent = { ended := true } := by
  cases scope <;> cases h
  rfl

/-- A function that starts an expression has no documentation. -/
theorem Hole.recent_begin {hole : Hole} (hdot : recent.dot = false)
    (hdoc : t.kind = .keyword .fnWord → recent.doc = none) (h : hole.begin t = .ok next) :
    next.recent = recent.next t.kind := by
  unfold Hole.begin at h
  split at h <;> cases h
  · simp [*]
  · simp [*]
  · simp [*]
  · rename_i hkind
    simp [Reading.recent, hkind, hdot, hdoc hkind]
  all_goals simp [Reading.recent, *]

theorem Scope.recent_begin {scope : Scope} {doc : Option String} (hdot : recent.dot = false)
    (hdoc : recent.doc = doc) (h : scope.begin doc t = .ok next) :
    next.recent = recent.next t.kind := by
  subst hdoc
  unfold Scope.begin at h
  split at h
  · rename_i hkind
    simp [Scope.recent_finish h, hkind]
  · rename_i hkind
    simp [Scope.recent_close h, hkind]
  · split at h <;> cases h
    simp [Reading.recent, *]
  · cases h
    simp [Reading.recent, *]
  · cases h
    simp [Reading.recent, *]
  · cases h
    simp [Reading.recent, Keyword.ofDeclaration, *]
  · cases h
    simp [Reading.recent, Keyword.ofDeclaration, *]
  · cases h
    simp [Reading.recent, *]
  · cases h
    simp [Reading.recent, *]
  · cases h
    simp [Reading.recent, *]
  · cases h
    simp [Reading.recent, *]
  · exact Hole.recent_begin hdot (fun hfn => by contradiction) h

theorem Callable.recent_begin {owner : Callable} (h : owner.begin t = .ok next) :
    next.recent = recent.next t.kind := by
  unfold Callable.begin at h
  split at h <;> cases h
  simp [Reading.recent, *]

theorem Scope.recent_enter {scope : Scope} (h : scope.enter t = .ok next) :
    next.recent = recent.next t.kind := by
  unfold Scope.enter at h
  split at h <;> cases h
  simp [Reading.recent, *]

theorem recent_afterEntry {loc : Location} {done : List Property} {hole : Hole}
    (h : afterEntry loc done hole t = .ok next) : next.recent = recent.next t.kind := by
  unfold afterEntry at h
  split at h <;> cases h
  · simp [Reading.recent, *]
  · simp [*]

theorem Hole.recent_fill {e : Expr} {hole : Hole} (hdot : recent.dot = false)
    (hdoc : recent.doc = none) (h : hole.fill e t = .ok next) :
    next.recent = recent.next t.kind := by
  fun_induction Hole.fill e t hole with
  | case1 | case2 | case3 => exact Scope.recent_begin hdot hdoc h
  | case4 | case6 | case10 | case14 | case15 | case17 =>
      cases h
      simp [Reading.recent, *]
  | case8 | case11 =>
      cases h
      simp [*]
  | case13 => exact recent_afterEntry h
  | case19 e op loc outer ih => exact ih h
  | case20 e left op outer ih => exact ih h
  | case21 e target outer ih => exact ih h
  | _ => cases h

theorem Hole.recent_extend {left : Expr} {hole : Hole} (hdot : recent.dot = false)
    (hdoc : recent.doc = none) (h : hole.extend left t = .ok next) :
    next.recent = recent.next t.kind := by
  unfold Hole.extend at h
  split at h
  · cases h
    simp [Reading.recent, *]
  · cases h
    simp [Reading.recent, *]
  · cases h
    simp [Reading.recent, *]
  · dsimp only at h
    split at h <;> cases h
    simp [Reading.recent, *]
  · rename_i mark _ _ hdotMark _ hkind
    split at h
    · cases h
      simpa [Reading.recent, hkind] using hdotMark
    · exact Hole.recent_fill hdot hdoc h
  · exact Hole.recent_fill hdot hdoc h

/-- What is remembered changes by the kind of the token alone. -/
theorem Reading.recent_step (hr : r.recent.ended = false) (h : r.step t = .ok next) :
    next.recent = r.recent.next t.kind := by
  unfold Reading.step at h
  split at h
  · exact Scope.recent_begin rfl rfl h
  · exact Hole.recent_begin rfl (fun _ => rfl) h
  · exact Hole.recent_extend rfl rfl h
  · split at h
    · cases h
      simp [Reading.recent, *]
    · exact Hole.recent_begin rfl (fun _ => rfl) h
  · split at h
    · cases h
      simp [*]
    · exact Hole.recent_begin rfl (fun _ => rfl) h
  · split at h <;> cases h
    · simp [*]
    · simp [Reading.recent, *]
    · simp [Reading.recent, *]
  · split at h
    · cases h
      simp [Reading.recent, *]
    · exact recent_afterEntry h
  · -- a word behind a dot opens no declaration
    split at h <;> cases h
    · simp [Reading.recent, *]
    · simp [Reading.recent, *]
  · split at h <;> cases h <;> simp [Reading.recent, *]
  · split at h <;> cases h <;> simp [Reading.recent, *]
  · split at h <;> cases h <;> simp [Reading.recent, *]
  · split at h <;> cases h
    simp [Reading.recent, *]
  · split at h <;> cases h
    simp [Reading.recent, *]
  · split at h <;> cases h
    simp [Reading.recent, *]
  · split at h
    · cases h
      simp [Reading.recent, *]
    · split at h
      · cases h
      · exact Scope.recent_begin rfl rfl h
  · split at h
    · cases h
      simp [Reading.recent, *]
    · exact Callable.recent_begin h
  · exact Callable.recent_begin h
  · split at h <;> cases h <;> simp [Reading.recent, *]
  · split at h <;> cases h <;> simp [Reading.recent, *]
  · split at h <;> cases h
    simp [Reading.recent, *]
  · split at h <;> cases h
    simp [Reading.recent, *]
  · exact Scope.recent_enter h
  · split at h
    · cases h
      simp [Reading.recent, *]
    · exact Scope.recent_begin rfl rfl h
  · split at h
    · cases h
      simp [Reading.recent, *]
    · exact Scope.recent_enter h
  · split at h
    · exact Scope.recent_begin rfl rfl h
    · exact Scope.recent_begin rfl rfl h
    · exact Scope.recent_begin rfl rfl h
    · exact Hole.recent_begin rfl (fun _ => rfl) h
  · cases hr

/-! ### All tokens -/

/-- What is remembered after many kinds. -/
def Recent.after (recent : Recent) (kinds : List Kind) : Recent :=
  kinds.foldl Recent.next recent

@[simp] theorem Recent.after_nil : recent.after [] = recent := rfl

@[simp] theorem Recent.after_cons (kind : Kind) (kinds : List Kind) :
    recent.after (kind :: kinds) = (recent.next kind).after kinds := rfl

@[simp] theorem Recent.after_concat (kinds : List Kind) (kind : Kind) :
    recent.after (kinds ++ [kind]) = (recent.after kinds).next kind := by
  simp [after]

theorem Reading.recent_takeAll {tokens : List Token} (hr : r.recent.ended = false)
    (hkinds : ∀ t ∈ tokens, t.kind ≠ .eof) (h : r.takeAll tokens = .ok next) :
    next.recent = r.recent.after (tokens.map Token.kind) := by
  induction tokens generalizing r with
  | nil =>
      cases h
      rfl
  | cons t ts ih =>
      obtain ⟨s, hstep, hrest⟩ := Reading.exists_step h
      have hs := recent_step hr hstep
      have hended : s.recent.ended = false := by
        simpa [hs] using hkinds t List.mem_cons_self
      rw [ih hended (fun u hu => hkinds u (List.mem_cons_of_mem t hu)) hrest, hs]
      rfl

end Syntax

end ScriptLens
