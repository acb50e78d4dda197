/-!
# Substitution by rule

A rule looks at one place of a text.  Applying it to the whole text goes from the front to the end: where
the rule takes some characters, its replacement stands for them and the search goes on behind them.
-/

namespace ScriptLens.Text

/-- What a rule does at one place: how many characters it takes, and what replaces them.  It takes at
least one. -/
structure Replacement where
  width : Nat
  text : List Char
deriving DecidableEq, Repr

/-- A rule sees the character before the place, if there is one, and the text from the place on. -/
abbrev Rule := Option Char → List Char → Option Replacement

/-- Apply a rule along a text, the first `skip` characters of which were taken before. -/
def substituteFrom (rule : Rule) : (skip : Nat) → (before : Option Char) → List Char → List Char
  | _, _, [] => []
  | skip + 1, _, c :: cs => substituteFrom rule skip (some c) cs
  | 0, before, c :: cs =>
      match rule before (c :: cs) with
      | some r => r.text ++ substituteFrom rule (r.width - 1) (some c) cs
      | none => c :: substituteFrom rule 0 (some c) cs

/-- Characters that were taken leave nothing behind but the last of them, which the rule may look at. -/
theorem substituteFrom_skip (rule : Rule) (skip : Nat) (before : Option Char) (c : Char)
    (cs : List Char) (h : skip ≤ cs.length) :
    substituteFrom rule (skip + 1) before (c :: cs) =
      substituteFrom rule 0 ((c :: cs)[skip]?) (cs.drop skip) := by
  induction skip generalizing before c cs with
  | zero => simp [substituteFrom]
  | succ n ih =>
      cases cs with
      | nil => simp at h
      | cons d ds =>
          rw [substituteFrom, ih _ _ _ (by simpa using h)]
          simp

/-- Apply a rule to a whole text. -/
def substitute (rule : Rule) (text : List Char) : List Char :=
  substituteFrom rule 0 none text

end ScriptLens.Text
