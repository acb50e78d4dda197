import ScriptLens.Host
import ScriptLens.Symbol.Collect

/-!
# Walking over a program

A walk over a program adds the symbols that it comes to to those that it has, statement by statement, and calls
itself for the statements inside a statement.  The host may limit how deep these calls go.
-/

namespace ScriptLens

/-- A part of a statement that may hold statements. -/
inductive Part where
  | body
  | thenBranch
  | elseBranch
deriving DecidableEq, Repr

/-- All parts, in the order in which they are walked over. -/
def Part.all : List Part := [.body, .thenBranch, .elseBranch]

/-- The statements in a part of a foreign statement, if there are any. -/
def Slot.statements? : Slot → Option (List Stmt)
  | .statements body => some body
  | _ => none

/-- The statements in a part of a statement, if it has the part. -/
def Stmt.part? : Stmt → Part → Option (List Stmt)
  | .function _ _ body _ _, .body | .loop _ body _, .body => some body
  | .conditional _ body _ _, .thenBranch => some body
  | .conditional _ _ otherwise _, .elseBranch => otherwise
  | .foreign body _ _ _, .body => body.statements?
  | .foreign _ thenBranch _ _, .thenBranch => thenBranch.statements?
  | .foreign _ _ elseBranch _, .elseBranch => elseBranch.statements?
  | _, _ => none

/-- A walk has a list of symbols, adds to it, and may fail. -/
abbrev Walk := StateT (List Symbol) (Except Failure)

/-- Add symbols behind those that are there, in a call of its own. -/
def Walk.add (symbols : List Symbol) : (calls : Nat) → Walk Unit
  | 0 => throw .tooDeep
  | _ + 1 => modify (· ++ symbols)

mutual

/-- Walk over the statements of a block.  Each function here may make one call less than its caller. -/
def walkBlock : (calls : Nat) → List Stmt → Walk Unit
  | 0, _ => throw .tooDeep
  | calls + 1, statements => statements.forM fun s => walkStatement calls s

/-- Walk over a statement and the parts that it has.  The body of a function is walked over with its name and
parameters, and not again as a part. -/
def walkStatement : (calls : Nat) → Stmt → Walk Unit
  | 0, _ => throw .tooDeep
  | calls + 1, s => do
      match s with
      | .declare constant name value doc loc => Walk.add [.ofDeclaration constant name value doc loc] calls
      | .function name parameters body doc loc =>
          walkFunction calls (Symbol.ofFunction name parameters doc loc) body
          return
      | .imports names source loc => Walk.add (Symbol.ofImport names source loc) calls
      | _ => pure ()
      Part.all.forM fun part =>
        match s.part? part with
        | some nested => walkBlock calls nested
        | none => pure ()

/-- Add a function and its parameters, then walk over its body. -/
def walkFunction : (calls : Nat) → (symbols : List Symbol) → (body : List Stmt) → Walk Unit
  | 0, _, _ => throw .tooDeep
  | calls + 1, symbols, body => do
      modify (· ++ symbols)
      walkBlock calls body

end

mutual

/-- How many calls a walk over a statement has inside each other. -/
def Stmt.depth : Stmt → Nat
  | .declare _ _ _ _ _ | .imports _ _ _ => 2
  | .function _ _ body _ _ => blockDepth body + 2
  | .conditional _ body none _ => blockDepth body + 1
  | .conditional _ body (some otherwise) _ => max (blockDepth body) (blockDepth otherwise) + 1
  | .loop _ body _ => blockDepth body + 1
  | .result _ _ | .expression _ _ => 1
  | .foreign body thenBranch elseBranch _ =>
      max body.depth (max thenBranch.depth elseBranch.depth) + 1

/-- How many calls a walk over a part of a foreign statement has inside each other. -/
def Slot.depth : Slot → Nat
  | .absent | .text _ => 0
  | .statements body => blockDepth body

/-- How many calls a walk over a block has inside each other. -/
def blockDepth : List Stmt → Nat
  | [] => 1
  | s :: rest => max (s.depth + 1) (blockDepth rest)

end

/-- Collect the symbols of a program.  A host without a limit lets the walk go as deep as it has to. -/
def Program.collect (p : Program) (host : Host) : Except Failure (List Symbol) := do
  let ((), symbols) ← (walkBlock (host.calls.getD (blockDepth p.body)) p.body).run []
  return symbols

end ScriptLens
