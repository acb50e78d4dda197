import ScriptLens.Editor.Position
import ScriptLens.Proofs.Text.Lines

/-!
# Locations and positions in a text

A location has a line, a column and an offset, and they name the same place of a text only if they fit
together.  `Located` says what that means by the text alone.  The place after a part of a text is such a
location, and so is exactly what the editor's positions and offsets lead back and forth between.

Main statements: `located_after` and `located_iff_position`.
-/

namespace ScriptLens

open Text

/-! ### Locations of a text -/

/-- The line, the column and the offset of a location name the same place of a text: so many line feeds
stand before the place, and so many characters between the start of its line and the place. -/
structure Located (source : List Char) (loc : Location) : Prop where
  inside : 0 ≤ loc.offset ∧ loc.offset ≤ source.length
  line : loc.line = 1 + (source.take loc.offset.toNat).count '\n'
  column : ∃ start : Nat, start ≤ loc.offset.toNat ∧
    (start = 0 ∨ source[start - 1]? = some '\n') ∧
    '\n' ∉ (source.take loc.offset.toNat).drop start ∧ loc.column = 1 + loc.offset - start

/-- A location names a place of a text by what stands before the place. -/
theorem located_iff (source : List Char) (loc : Location) :
    Located source loc ↔ ∃ before behind, source = before ++ behind ∧
      loc.offset = before.length ∧ loc.line = 1 + before.count '\n' ∧
      loc.column = 1 + lastWidth before := by
  constructor
  · rintro ⟨⟨hpos, hle⟩, hline, start, hstart, hfeed, hlast, hcolumn⟩
    generalize hn : loc.offset.toNat = n at hline hstart hlast
    have hlength : (source.take n).length = n := by rw [List.length_take]; omega
    refine ⟨source.take n, source.drop n, (List.take_append_drop n source).symm, by omega, hline, ?_⟩
    have hwidth : lastWidth (source.take n) = n - start := by
      cases start with
      | zero =>
          rw [List.drop_zero] at hlast
          rw [lastWidth_of_not_mem hlast, hlength, Nat.sub_zero]
      | succ k =>
          have hfeed : source[k]? = some '\n' := by simpa using hfeed
          have hat : (source.take n)[k]? = some '\n' := by
            rw [List.getElem?_take, if_pos (by omega), hfeed]
          obtain ⟨hk, hget⟩ := List.getElem?_eq_some_iff.mp hat
          have hcut : source.take n =
              (source.take n).take k ++ '\n' :: (source.take n).drop (k + 1) := by
            rw [← hget, List.getElem_cons_drop, List.take_append_drop]
          rw [hcut, lastWidth_feed _ hlast, List.length_drop, hlength]
    rw [hwidth, hcolumn]
    omega
  · rintro ⟨before, behind, rfl, hoffset, hline, hcolumn⟩
    have hn : loc.offset.toNat = before.length := by omega
    have hinside : loc.offset ≤ (before ++ behind).length := by
      rw [List.length_append]
      omega
    refine ⟨⟨by omega, hinside⟩, by simp [hn, hline], ?_⟩
    rw [hn, List.take_left]
    rcases exists_last_line before with hnone | ⟨front, last, rfl, hlast⟩
    · refine ⟨0, by omega, Or.inl rfl, by simpa using hnone, ?_⟩
      rw [hcolumn, lastWidth_of_not_mem hnone, hoffset]
      omega
    · refine ⟨front.length + 1, by simp, Or.inr (by simp), by simpa using hlast, ?_⟩
      rw [hcolumn, lastWidth_feed front hlast, hoffset]
      simp
      omega

namespace Location

theorem offset_after (loc : Location) (text : List Char) :
    (loc.after text).offset = loc.offset + text.length := by
  induction text generalizing loc with
  | nil => simp
  | cons c cs ih =>
      rw [after_cons, ih, next]
      split <;> simp <;> omega

theorem offset_after_start (file : Option String) (text : List Char) :
    ((start file).after text).offset = text.length := by
  rw [offset_after]
  exact Int.zero_add _

theorem line_after (loc : Location) (text : List Char) :
    (loc.after text).line = loc.line + text.count '\n' := by
  induction text generalizing loc with
  | nil => simp
  | cons c cs ih =>
      rw [after_cons, ih, next]
      by_cases hc : c = '\n'
      · simp [hc]
        omega
      · simp [hc]

theorem file_after (loc : Location) (text : List Char) : (loc.after text).file = loc.file := by
  induction text generalizing loc with
  | nil => rfl
  | cons c cs ih =>
      rw [after_cons, ih, next]
      split <;> rfl

theorem column_after_of_not_mem (loc : Location) {text : List Char} (h : '\n' ∉ text) :
    (loc.after text).column = loc.column + text.length := by
  induction text generalizing loc with
  | nil => simp
  | cons c cs ih =>
      obtain ⟨hc, hcs⟩ : '\n' ≠ c ∧ '\n' ∉ cs := by simpa using h
      rw [after_cons, ih _ hcs, next, if_neg (Ne.symm hc), List.length_cons]
      simp
      omega

/-- Text without a line feed leads to the right on the first line. -/
theorem after_start_of_not_mem (file : Option String) {text : List Char} (h : '\n' ∉ text) :
    (start file).after text = ⟨1, text.length + 1, text.length, file⟩ := by
  have hline : ((start file).after text).line = 1 := by
    rw [line_after, List.count_eq_zero.mpr h]
    rfl
  have hcolumn : ((start file).after text).column = text.length + 1 := by
    rw [column_after_of_not_mem _ h, Int.add_comm]
    rfl
  calc (start file).after text
      = ⟨((start file).after text).line, ((start file).after text).column,
          ((start file).after text).offset, ((start file).after text).file⟩ := rfl
    _ = ⟨1, text.length + 1, text.length, file⟩ := by
        rw [hline, hcolumn, offset_after_start, file_after]
        rfl

/-- The column counts from the last line feed. -/
theorem column_after_start (file : Option String) (text : List Char) :
    ((start file).after text).column = 1 + lastWidth text := by
  rcases exists_last_line text with hnone | ⟨front, last, rfl, hlast⟩
  · rw [column_after_of_not_mem _ hnone, lastWidth_of_not_mem hnone]
    rfl
  · rw [after_append, after_cons, column_after_of_not_mem _ hlast, lastWidth_feed front hlast]
    simp [next]

end Location

/-- The place after the first part of a text is a location of the text. -/
theorem located_after (file : Option String) (before behind : List Char) :
    Located (before ++ behind) ((Location.start file).after before) := by
  refine (located_iff _ _).mpr ⟨before, behind, rfl, ?_, ?_, ?_⟩
  · exact Location.offset_after_start file before
  · simp [Location.line_after, Location.start]
  · exact Location.column_after_start file before

/-- The name of the file is no part of the place. -/
theorem Located.rename {source : List Char} {loc : Location} (h : Located source loc)
    (file : Option String) : Located source { loc with file := file } :=
  ⟨h.inside, h.line, h.column⟩

/-! ### Positions -/

/-- The lines before a line count with the line feed behind each of them. -/
theorem Position.offsetIn_append {above below : List (List Char)} (ha : above ≠ [])
    (hb : below ≠ []) (line character : Nat) :
    offsetIn (above ++ below) (above.length + line) character =
      (unlines above).length + 1 + offsetIn below line character := by
  induction above with
  | nil => exact absurd rfl ha
  | cons here rest ih =>
      obtain ⟨first, more, hcons⟩ : ∃ first more, rest ++ below = first :: more := by
        refine List.exists_cons_of_ne_nil fun hnil => hb ?_
        exact (List.append_eq_nil_iff.mp hnil).2
      have hstep : offsetIn (here :: rest ++ below) ((here :: rest).length + line) character =
          here.length + 1 + offsetIn (rest ++ below) (rest.length + line) character := by
        rw [List.cons_append, hcons, List.length_cons, Nat.add_right_comm, offsetIn]
        simp
      rw [hstep]
      cases rest with
      | nil => simp
      | cons second others =>
          rw [ih (by simp)]
          simp
          omega

/-- The number of line feeds before a place and the width of the line before it lead back to the place. -/
theorem Position.offsetOf_append (before behind : List Char) :
    offsetOf (before ++ behind) (before.count '\n' : Nat) (lastWidth before : Nat) =
      before.length := by
  have hfirst : ∀ {line : List Char}, '\n' ∉ line →
      offsetIn (lines (line ++ behind)) 0 line.length = line.length := by
    intro line hline
    obtain ⟨first, rest, -, hlines⟩ := lines_append hline behind
    rw [hlines, offsetIn, List.length_append]
    omega
  rw [offsetOf, if_neg (by omega), Int.toNat_natCast, Int.toNat_natCast]
  rcases exists_last_line before with hnone | ⟨front, last, rfl, hlast⟩
  · rw [lastWidth_of_not_mem hnone, List.count_eq_zero.mpr hnone, hfirst hnone]
  · have hcount : (front ++ '\n' :: last).count '\n' = (lines front).length + 0 := by
      rw [length_lines, List.count_append, List.count_cons_self, List.count_eq_zero.mpr hlast]
    rw [lastWidth_feed front hlast, hcount, List.append_assoc, List.cons_append, lines_feed,
      offsetIn_append (lines_ne_nil _) (lines_ne_nil _), unlines_lines, hfirst hlast,
      List.length_append, List.length_cons]
    omega

/-- The offset of a position in a text. -/
def Position.offset (position : Position) (text : List Char) : Nat :=
  offsetOf text position.line position.character

theorem Position.offset_append (before behind : List Char) :
    (⟨before.count '\n', lastWidth before⟩ : Position).offset (before ++ behind) = before.length :=
  offsetOf_append before behind

/-- The position of an offset, by what stands before it. -/
theorem Position.ofOffset_eq (text : List Char) (offset : Int) :
    ofOffset text offset =
      make ((text.take (clamp text offset)).count '\n' : Nat)
        (lastWidth (text.take (clamp text offset)) : Nat) := rfl

/-- A number passes its check exactly if the protocol has it. -/
theorem checkBound_eq_ok_iff (field : BoundedField) (value : Int) (n : Nat) :
    checkBound field value = .ok n ↔ (n : Int) = value ∧ (n : Int) ≤ maxFieldValue := by
  unfold checkBound
  split
  · rw [Except.ok.injEq]
    omega
  · constructor
    · intro h
      cases h
    · omega

/-- A position can be made of two numbers exactly if the protocol has both of them. -/
theorem Position.make_eq_ok_iff (line character : Int) (position : Position) :
    make line character = .ok position ↔
      ((position.line : Int) = line ∧ (position.line : Int) ≤ maxFieldValue) ∧
        (position.character : Int) = character ∧ (position.character : Int) ≤ maxFieldValue := by
  obtain ⟨l, c⟩ := position
  rw [make, ← checkBound_eq_ok_iff .line, ← checkBound_eq_ok_iff .character]
  cases checkBound .line line with
  | error failure => simp [bind, Except.bind]
  | ok a =>
      cases checkBound .character character with
      | error failure => simp [bind, Except.bind]
      | ok b => simp [bind, Except.bind, pure, Except.pure]

/-- A position has the numbers it was made of. -/
theorem Position.make_eq_ok {line character : Int} {position : Position}
    (h : make line character = .ok position) :
    (position.line : Int) = line ∧ (position.character : Int) = character := by
  obtain ⟨⟨hline, -⟩, hcharacter, -⟩ := (make_eq_ok_iff _ _ _).mp h
  exact ⟨hline, hcharacter⟩

theorem Position.make_of_le {line character : Nat} (hl : (line : Int) ≤ maxFieldValue)
    (hc : (character : Int) ≤ maxFieldValue) : make line character = .ok ⟨line, character⟩ :=
  (make_eq_ok_iff _ _ _).mpr ⟨⟨rfl, hl⟩, rfl, hc⟩

/-- In a text of less than `2 ^ 31` characters, which is not too long for the editor, the position of a place
counts what stands before it. -/
theorem Position.ofOffset_append {before behind : List Char}
    (hshort : (before ++ behind).length < 2147483648) :
    ofOffset (before ++ behind) (before.length : Nat) = .ok ⟨before.count '\n', lastWidth before⟩ := by
  have hmax : maxFieldValue = 2147483647 := rfl
  have hcount : before.count '\n' ≤ before.length := List.count_le_length
  have hwidth := lastWidth_le before
  have hclamp : clamp (before ++ behind) (before.length : Nat) = before.length := by
    rw [clamp, List.length_append]
    omega
  rw [List.length_append] at hshort
  rw [ofOffset_eq, hclamp, List.take_left]
  exact make_of_le (by omega) (by omega)

/-- A range on a line can be made exactly if both of its ends can. -/
theorem Range.onLine_eq_ok_iff (line first last : Int) (range : Range) :
    Range.onLine line first last = .ok range ↔
      Position.make line first = .ok range.first ∧ Position.make line last = .ok range.last := by
  rw [Range.onLine]
  cases hfirst : Position.make line first with
  | error failure => simp [bind, Except.bind]
  | ok start =>
      cases hlast : Position.make line last with
      | error failure => simp [bind, Except.bind]
      | ok stop =>
          obtain ⟨a, b⟩ := range
          simp [bind, Except.bind, pure, Except.pure]

/-- In a text of less than `2 ^ 31` characters, which is not too long for the editor, a location names a place
exactly if its offset has the position of its line and column, and that position has its offset. -/
theorem located_iff_position {source : List Char} (hshort : source.length < 2147483648)
    (loc : Location) :
    Located source loc ↔
      (∃ position, Position.ofOffset source loc.offset = .ok position ∧
        (position.line : Int) = loc.line - 1 ∧ (position.character : Int) = loc.column - 1) ∧
      (Position.offsetOf source (loc.line - 1) (loc.column - 1) : Int) = loc.offset := by
  rw [located_iff]
  constructor
  · rintro ⟨before, behind, rfl, hoffset, hline, hcolumn⟩
    have hline' : loc.line - 1 = (before.count '\n' : Nat) := by omega
    have hcolumn' : loc.column - 1 = (lastWidth before : Nat) := by omega
    refine ⟨⟨⟨before.count '\n', lastWidth before⟩, ?_, hline'.symm, hcolumn'.symm⟩, ?_⟩
    · rw [hoffset]
      exact Position.ofOffset_append hshort
    · rw [hline', hcolumn', Position.offsetOf_append, hoffset]
  · rintro ⟨⟨position, hposition, hline, hcolumn⟩, hoffset⟩
    rw [Position.ofOffset_eq] at hposition
    generalize Position.clamp source loc.offset = n at hposition
    have hcut := (List.take_append_drop n source).symm
    obtain ⟨hl, hc⟩ := Position.make_eq_ok hposition
    refine ⟨source.take n, source.drop n, hcut, ?_, by omega, by omega⟩
    have hback := Position.offsetOf_append (source.take n) (source.drop n)
    rw [← hcut] at hback
    rw [← hoffset, ← hline, ← hcolumn, hl, hc, hback]

end ScriptLens
