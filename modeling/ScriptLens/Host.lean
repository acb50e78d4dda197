import ScriptLens.Failure

/-!
# Hosts

What the machine that runs the tools can do.  A host may hold texts up to some length only, and may let functions
call each other up to some depth only.  What goes beyond fails.
-/

namespace ScriptLens

/-- The limits of a host, where it has any. -/
structure Host where
  /-- The greatest length of a text. -/
  length : Option Nat := none
  /-- The greatest number of calls inside each other for a walk over a program. -/
  calls : Option Nat := none
deriving DecidableEq, Repr

namespace Host

/-- A host that counts with 64 bits. -/
def wide : Host := { length := some maxIndex }

/-- Whether a host can hold a text of some length. -/
def holds (host : Host) (count : Nat) : Bool :=
  host.length.all (count ≤ ·)

/-- Whether a host lets functions call each other up to some depth. -/
def reaches (host : Host) (depth : Nat) : Bool :=
  host.calls.all (depth ≤ ·)

/-- A text, if the host can hold it. -/
def hold (host : Host) (text : List Char) : Except Failure (List Char) :=
  if host.holds text.length then .ok text else .error (.tooLong text.length)

/-- A run of blanks, if the host can hold it. -/
def blanks (host : Host) (count : Nat) : Except Failure (List Char) :=
  if host.holds count then .ok (List.replicate count ' ') else .error (.tooLong count)

end Host

end ScriptLens
