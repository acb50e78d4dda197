import ScriptLens.Failure
import ScriptLens.Text.Lines

/-!
# Positions and offsets

An editor names a place in a document by its line and the character on that line, both from zero.  A
program names it by its offset, the number of characters before it.
-/

namespace ScriptLens

/-- A place in a document, as the editor protocol writes it. -/
structure Position where
  line : Nat
  character : Nat
deriving DecidableEq, Repr, Inhabited

/-- A part of a document, from its first character to the one behind its last. -/
structure Range where
  first : Position
  last : Position
deriving DecidableEq, Repr, Inhabited

namespace Position

/-- The position with the given numbers, if the protocol allows them.  The line is checked first. -/
def make (line character : Int) : Except Failure Position := do
  let l ← checkBound .line line
  let c ← checkBound .character character
  return ⟨l, c⟩

/-- The offset of a character in a list of lines with a line feed between each two.  A character past the
end of its line means the end of the line, a line past the last one the end of the text. -/
def offsetIn : List (List Char) → (line character : Nat) → Nat
  | [], _, _ => 0
  | here :: _, 0, character => min character here.length
  | [here], _ + 1, _ => here.length
  | here :: rest, line + 1, character => here.length + 1 + offsetIn rest line character

/-- The offset of a place in a text.  Any two integers name a place: a line before the first means the
start of the text, and a character before the first the start of its line. -/
def offsetOf (text : List Char) (line character : Int) : Nat :=
  if line < 0 then 0 else offsetIn (Text.lines text) line.toNat character.toNat

theorem offsetIn_le (ls : List (List Char)) (line character : Nat) :
    offsetIn ls line character ≤ (Text.unlines ls).length := by
  induction ls generalizing line character with
  | nil => simp [offsetIn]
  | cons here rest ih =>
      cases line with
      | zero =>
          have hline : here.length ≤ (Text.unlines (here :: rest)).length := by
            cases rest <;> simp
          rw [offsetIn]
          exact Nat.le_trans (Nat.min_le_right ..) hline
      | succ n =>
          cases rest with
          | nil => simp [offsetIn]
          | cons below more =>
              have step := ih n character
              simp [offsetIn] at step ⊢
              omega

/-- Every place lies in the text. -/
theorem offsetOf_le (text : List Char) (line character : Int) :
    offsetOf text line character ≤ text.length := by
  rw [offsetOf]
  split
  · simp
  · have step := offsetIn_le (Text.lines text) line.toNat character.toNat
    rwa [Text.unlines_lines] at step

/-- An offset moved into a text. -/
def clamp (text : List Char) (offset : Int) : Nat :=
  min offset.toNat text.length

/-- The position of an offset in a text. -/
def ofOffset (text : List Char) (offset : Int) : Except Failure Position :=
  let before := text.take (clamp text offset)
  make (before.count '\n') (before.reverse.takeWhile (· ≠ '\n')).length

end Position

/-- The part of a line between two characters. -/
def Range.onLine (line first last : Int) : Except Failure Range := do
  return ⟨← Position.make line first, ← Position.make line last⟩

end ScriptLens
