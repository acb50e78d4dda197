import ScriptLens.Proofs.Located

/-!
# Positions and offsets lead back and forth

An editor counts lines and characters, a program counts the characters before a place.  Both name the place by what
stands before it, so each way leads back to where it started from.  Numbers that name no place are moved to one, and
they are moved without changing sides: of two positions, the one that comes first in the order of lines and characters
never gets the greater offset.

Main statement: `Position.offsets_and_positions`.
-/

namespace ScriptLens.Position

open Text

/-- An offset in a text is that of its position. -/
theorem exists_offset_eq {text : List Char} (hshort : text.length < 2147483648) {offset : Nat}
    (h : offset ≤ text.length) :
    ∃ position, ofOffset text offset = .ok position ∧ position.offset text = offset := by
  have hlength : (text.take offset).length = offset := by
    rw [List.length_take, Nat.min_eq_left h]
  have hcut := List.take_append_drop offset text
  generalize text.take offset = before, text.drop offset = behind at hlength hcut
  subst hcut hlength
  exact ⟨_, ofOffset_append hshort, offset_append before behind⟩

/-- A character of a line, or its end, is the position of its offset. -/
theorem ofOffset_offsetOf {text content : List Char} (hshort : text.length < 2147483648) {line character : Nat}
    (hline : (lines text)[line]? = some content) (hcharacter : character ≤ content.length) :
    ofOffset text (offsetOf text line character) = .ok ⟨line, character⟩ := by
  obtain ⟨before, behind, rfl, rfl, rfl⟩ := exists_cut_of_line hline hcharacter
  rw [offsetOf_append, ofOffset_append hshort]

/-- Offsets are in the order of lines and characters. -/
theorem offsetIn_mono {ls : List (List Char)} {line line' character character' : Nat}
    (h : line < line' ∨ line = line' ∧ character ≤ character') :
    offsetIn ls line character ≤ offsetIn ls line' character' := by
  induction ls generalizing line line' with
  | nil => simp [offsetIn]
  | cons here rest ih =>
      cases line' with
      | zero =>
          obtain rfl : line = 0 := by omega
          rw [offsetIn, offsetIn]
          omega
      | succ line' =>
          cases line with
          | zero =>
              -- the end of the line is not behind any place below it
              have hend : here.length ≤ offsetIn (here :: rest) (line' + 1) character' := by
                cases rest with
                | nil => exact Nat.le_refl _
                | cons below more =>
                    simp only [offsetIn]
                    omega
              rw [offsetIn]
              omega
          | succ line =>
              cases rest with
              | nil => exact Nat.le_refl _
              | cons below more =>
                  have hbelow : offsetIn (below :: more) line character ≤
                      offsetIn (below :: more) line' character' := ih (by omega)
                  simp only [offsetIn] at hbelow ⊢
                  omega

theorem offsetOf_mono (text : List Char) {line line' character character' : Int}
    (h : line < line' ∨ line = line' ∧ character ≤ character') :
    offsetOf text line character ≤ offsetOf text line' character' := by
  rw [offsetOf, offsetOf]
  by_cases hline : line < 0
  · rw [if_pos hline]
    exact Nat.zero_le _
  · rw [if_neg hline, if_neg (by omega)]
    exact offsetIn_mono (by omega)

/-- An offset outside of a text means the nearer end of it. -/
theorem ofOffset_nearest (text : List Char) (offset : Int) :
    ofOffset text offset = ofOffset text (max 0 (min offset text.length)) := by
  have hclamp : clamp text (max 0 (min offset text.length)) = clamp text offset := by
    rw [clamp, clamp]
    omega
  rw [ofOffset_eq, ofOffset_eq, hclamp]

/-- In a text of less than `2 ^ 31` characters, which is not too long for the editor, every offset has a position with
that offset, and every character of every line, and the end of every line, is the position of its offset.  Any two
integers have an offset in the text, in the order of lines and then of characters, and any integer has the position of
the nearest offset in the text. -/
theorem offsets_and_positions {text : List Char} (hshort : text.length < 2147483648) :
    (∀ offset : Nat, offset ≤ text.length →
      ∃ position, ofOffset text offset = .ok position ∧ position.offset text = offset) ∧
    (∀ (line character : Nat) (content : List Char), (lines text)[line]? = some content →
      character ≤ content.length → ofOffset text (offsetOf text line character) = .ok ⟨line, character⟩) ∧
    (∀ line character : Int, offsetOf text line character ≤ text.length) ∧
    (∀ line line' character character' : Int, line < line' ∨ line = line' ∧ character ≤ character' →
      offsetOf text line character ≤ offsetOf text line' character') ∧
    ∀ offset : Int, ofOffset text offset = ofOffset text (max 0 (min offset text.length)) :=
  ⟨fun _ h => exists_offset_eq hshort h, fun _ _ _ hline hcharacter => ofOffset_offsetOf hshort hline hcharacter,
    offsetOf_le text, fun _ _ _ _ h => offsetOf_mono text h, ofOffset_nearest text⟩

/-- A text with a blank line and a line feed at its end: its end, the blank line, a character far behind the end of its
line, and an offset before the text. -/
theorem offsets_and_positions_blank_line :
    "ab\n\nc\n".toList.length < 2147483648 ∧
      (∃ position, ofOffset "ab\n\nc\n".toList 6 = .ok position ∧ position.offset "ab\n\nc\n".toList = 6) ∧
      ofOffset "ab\n\nc\n".toList (offsetOf "ab\n\nc\n".toList 1 0) = .ok ⟨1, 0⟩ ∧
      offsetOf "ab\n\nc\n".toList 0 99 ≤ offsetOf "ab\n\nc\n".toList 1 (-5) ∧
      ofOffset "ab\n\nc\n".toList (-7) = ofOffset "ab\n\nc\n".toList 0 := by
  have hshort : "ab\n\nc\n".toList.length < 2147483648 := by decide
  obtain ⟨hoffset, hposition, -, hordered, hnearest⟩ := offsets_and_positions hshort
  exact ⟨hshort, hoffset 6 (by decide), hposition 1 0 [] (by decide) (by decide),
    hordered 0 1 99 (-5) (by decide), hnearest (-7)⟩

end ScriptLens.Position
