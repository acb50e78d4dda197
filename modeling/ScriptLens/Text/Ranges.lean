/-!
# Sets of code points

A Unicode property is stored as the ascending list of the closed code point ranges that have it.
-/

namespace ScriptLens.Text

/-- Closed ranges of code points, ascending and apart from each other. -/
abbrev Ranges := List (Nat × Nat)

/-- Whether a code point lies in one of the ranges.  The ranges ascend, so the search stops at the
first range that starts above the code point. -/
def Ranges.covers : Ranges → Nat → Bool
  | [], _ => false
  | (low, high) :: rest, n => decide (low ≤ n) && (decide (n ≤ high) || Ranges.covers rest n)

end ScriptLens.Text
