import ScriptLens.Symbol.Walk

/-!
# What a walk over a program collects

A walk goes from statement to statement with the symbols it has, and calls itself for the parts of a statement.  If
the host lets it go as deep as the program is, it ends with the symbols of the program behind those it had.
Otherwise it fails, wherever in the program it is too deep.

Main statements: `walksTo` and `collect_eq`.
-/

namespace ScriptLens

/-! ### Walks one after the other -/

/-- A walk ends with symbols behind those it had, if it may go as deep as it has to, and fails otherwise. -/
def Walk.Ends (walk : Walk Unit) (depth calls : Nat) (symbols : List Symbol) : Prop :=
  ∀ before, walk.run before = if depth ≤ calls then .ok ((), before ++ symbols) else .error .tooDeep

namespace Walk

variable {first next : Walk Unit} {depth depth' calls : Nat} {symbols symbols' : List Symbol}

theorem Ends.succ (h : first.Ends depth calls symbols) : first.Ends (depth + 1) (calls + 1) symbols := by
  intro before
  simp only [h before, Nat.add_le_add_iff_right]

theorem Ends.congr (h : first.Ends depth calls symbols) (hdepth : depth' = depth)
    (hsymbols : symbols' = symbols) : first.Ends depth' calls symbols' := by
  rw [hdepth, hsymbols]
  exact h

theorem ends_pure (calls : Nat) : (pure () : Walk Unit).Ends 0 calls [] := by
  intro before
  rw [if_pos (Nat.zero_le calls), List.append_nil]
  rfl

theorem ends_modify (calls : Nat) (symbols : List Symbol) :
    (modify (· ++ symbols) : Walk Unit).Ends 0 calls symbols := by
  intro before
  rw [if_pos (Nat.zero_le calls)]
  rfl

/-- A walk without a call left fails. -/
theorem ends_tooDeep (h : 1 ≤ depth) : (throw Failure.tooDeep : Walk Unit).Ends depth 0 symbols := by
  intro before
  rw [if_neg (by omega)]
  rfl

/-- A walk behind another goes as deep as the deeper of the two. -/
theorem Ends.bind (h : first.Ends depth calls symbols) (hnext : next.Ends depth' calls symbols') :
    (first >>= fun _ => next).Ends (max depth depth') calls (symbols ++ symbols') := by
  intro before
  rw [StateT.run_bind, h before]
  by_cases hdepth : depth ≤ calls
  · have hboth : max depth depth' ≤ calls ↔ depth' ≤ calls := by omega
    rw [if_pos hdepth]
    simp only [hboth, ← List.append_assoc]
    exact hnext (before ++ symbols)
  · rw [if_neg hdepth, if_neg (by omega)]
    rfl

theorem ends_add (symbols : List Symbol) (calls : Nat) : (Walk.add symbols calls).Ends 1 calls symbols := by
  cases calls with
  | zero => exact ends_tooDeep (Nat.le_refl 1)
  | succ calls => exact (ends_modify calls symbols).succ

end Walk

/-! ### One level of calls -/

/-- Walks that may make a number of calls go as deep as what they walk over, and end with its symbols. -/
structure WalksTo (calls : Nat) : Prop where
  block : ∀ body, (walkBlock calls body).Ends (blockDepth body) calls (symbolsOf body)
  statement : ∀ s, (walkStatement calls s).Ends s.depth calls s.symbols
  function : ∀ symbols body,
    (walkFunction calls symbols body).Ends (blockDepth body + 1) calls (symbols ++ symbolsOf body)

theorem Stmt.depth_pos (s : Stmt) : 1 ≤ s.depth := by
  cases s with
  | conditional condition body otherwise loc => cases otherwise <;> simp [Stmt.depth]
  | _ => simp [Stmt.depth]

theorem blockDepth_pos (body : List Stmt) : 1 ≤ blockDepth body := by
  cases body with
  | nil => simp [blockDepth]
  | cons s rest => simp only [blockDepth]; omega

variable {calls : Nat}

/-- The statements of a block are walked over in turn. -/
theorem WalksTo.statements (h : WalksTo calls) (body : List Stmt) :
    (body.forM fun s => walkStatement calls s).Ends (blockDepth body) (calls + 1) (symbolsOf body) := by
  induction body with
  | nil => exact (Walk.ends_pure calls).succ
  | cons s rest ih => exact (h.statement s).succ.bind ih

/-- How deep a walk over a part of a statement goes. -/
def Stmt.partDepth (s : Stmt) (part : Part) : Nat :=
  ((s.part? part).map blockDepth).getD 0

/-- The symbols in a part of a statement. -/
def Stmt.partSymbols (s : Stmt) (part : Part) : List Symbol :=
  ((s.part? part).map symbolsOf).getD []

/-- The parts of a statement are walked over in turn, and those that it does not have are passed over. -/
theorem WalksTo.parts (h : WalksTo calls) (s : Stmt) :
    (Part.all.forM fun part =>
      match s.part? part with
      | some nested => walkBlock calls nested
      | none => pure ()).Ends
        (max (s.partDepth .body) (max (s.partDepth .thenBranch) (s.partDepth .elseBranch))) calls
        (s.partSymbols .body ++ (s.partSymbols .thenBranch ++ s.partSymbols .elseBranch)) := by
  have hpart : ∀ part, (match s.part? part with
      | some nested => walkBlock calls nested
      | none => pure ()).Ends (s.partDepth part) calls (s.partSymbols part) := by
    intro part
    unfold Stmt.partDepth Stmt.partSymbols
    cases s.part? part with
    | none => exact Walk.ends_pure calls
    | some nested => exact h.block nested
  have hall := (hpart .body).bind ((hpart .thenBranch).bind ((hpart .elseBranch).bind
    (Walk.ends_pure calls)))
  rw [List.append_nil, Nat.max_zero] at hall
  exact hall

/-! ### All levels of calls -/

theorem walksTo_zero : WalksTo 0 where
  block body := Walk.ends_tooDeep (blockDepth_pos body)
  statement s := Walk.ends_tooDeep s.depth_pos
  function _ _ := Walk.ends_tooDeep (Nat.le_add_left 1 _)

/-- A walk over a statement adds what the statement itself declares, and then walks over its parts. -/
theorem WalksTo.succ_statement (h : WalksTo calls) (s : Stmt) :
    (walkStatement (calls + 1) s).Ends s.depth (calls + 1) s.symbols := by
  have hparts := h.parts s
  have hpass := ((Walk.ends_pure calls).bind hparts).succ
  cases s with
  | declare constant name value doc loc =>
      have hadd := Walk.ends_add [.ofDeclaration constant name value doc loc] calls
      exact (hadd.bind hparts).succ.congr rfl rfl
  | function name parameters body doc loc =>
      have hfunction := h.function (Symbol.ofFunction name parameters doc loc) body
      refine (hfunction.bind (Walk.ends_pure calls)).succ.congr ?_ ?_
      · rw [Stmt.depth, Nat.max_zero]
      · rw [Stmt.symbols, List.append_nil]
  | imports names source loc =>
      have hadd := Walk.ends_add (Symbol.ofImport names source loc) calls
      exact (hadd.bind hparts).succ.congr rfl (List.append_nil _).symm
  | conditional condition body otherwise loc =>
      cases otherwise with
      | none =>
          refine hpass.congr ?_ ?_
          · simp [Stmt.depth, Stmt.partDepth, Stmt.part?]
          · simp [Stmt.symbols, Stmt.partSymbols, Stmt.part?]
      | some otherwise =>
          refine hpass.congr ?_ ?_
          · simp [Stmt.depth, Stmt.partDepth, Stmt.part?]
          · simp [Stmt.symbols, Stmt.partSymbols, Stmt.part?]
  | loop condition body loc =>
      refine hpass.congr ?_ ?_
      · simp [Stmt.depth, Stmt.partDepth, Stmt.part?]
      · simp [Stmt.symbols, Stmt.partSymbols, Stmt.part?]
  | result value loc => exact hpass
  | expression value loc => exact hpass
  | foreign body thenBranch elseBranch loc =>
      have hslot : ∀ slot : Slot, (slot.statements?.map blockDepth).getD 0 = slot.depth ∧
          (slot.statements?.map symbolsOf).getD [] = slot.symbols := by
        intro slot
        cases slot <;> exact ⟨rfl, rfl⟩
      refine hpass.congr ?_ ?_
      · simp [Stmt.depth, Stmt.partDepth, Stmt.part?, hslot]
      · simp [Stmt.symbols, Stmt.partSymbols, Stmt.part?, hslot]

theorem WalksTo.succ (h : WalksTo calls) : WalksTo (calls + 1) where
  block body := h.statements body
  statement s := h.succ_statement s
  function symbols body := by
    have hbody := ((Walk.ends_modify calls symbols).bind (h.block body)).succ
    rw [Nat.zero_max] at hbody
    exact hbody

/-- Walks go as deep as what they walk over, and end with its symbols. -/
theorem walksTo (calls : Nat) : WalksTo calls := by
  induction calls with
  | zero => exact walksTo_zero
  | succ calls ih => exact ih.succ

/-- Collecting the symbols of a program gives them, if the host lets the walk go as deep as the program is. -/
theorem collect_eq (p : Program) (host : Host) :
    p.collect host = if host.reaches (blockDepth p.body) then .ok p.symbols else .error .tooDeep := by
  rw [Program.collect, (walksTo _).block p.body, Host.reaches]
  cases host.calls with
  | none =>
      rw [Option.getD_none, if_pos (Nat.le_refl _)]
      rfl
  | some calls =>
      by_cases hdepth : blockDepth p.body ≤ calls
      · simp [hdepth, Program.symbols, pure, Except.pure, bind, Except.bind]
      · simp [hdepth, bind, Except.bind]

end ScriptLens
