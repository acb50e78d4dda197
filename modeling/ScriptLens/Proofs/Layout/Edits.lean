import ScriptLens.Proofs.Layout.Idempotence
import ScriptLens.Proofs.Located
import ScriptLens.Proofs.Session.History

/-!
# What the edits of the formatter do

The formatter tells an editor to replace a whole document, from its first character to the end of its last
line.  The editor finds these two places by their lines and characters.  In a text that is not too long for the
editor they are the start and the end of the text, so that the document becomes the formatted text, and there is
nothing left to edit.  All of that takes a host that can hold the formatted text.

Main statements: `formatWithin_outcome` and `edits_format`.
-/

namespace ScriptLens

open Text

/-- The text of a document after a change of it. -/
def TextEdit.apply (edit : TextEdit) (source : String) : String :=
  let text := source.toList
  String.ofList (text.take (edit.range.first.offset text) ++ edit.newText.toList ++
    text.drop (edit.range.last.offset text))

/-- The text of a document after changes of parts that follow each other.  The last part is changed first, which
leaves the places of the others as they are. -/
def TextEdit.applyAll (edits : List TextEdit) (source : String) : String :=
  edits.foldr TextEdit.apply source

namespace Layout

/-! ### The range of a whole text -/

/-- The width of the last line is what stands behind the last line feed. -/
theorem length_last_line (text : List Char) : ((lines text).getLast?.getD []).length = lastWidth text := by
  rcases exists_last_line text with hnone | ⟨front, last, rfl, hlast⟩
  · rw [lines_of_not_mem hnone, lastWidth_of_not_mem hnone]
    rfl
  · rw [lines_feed, lines_of_not_mem hlast, lastWidth_feed front hlast, List.getLast?_concat]
    rfl

/-- A text of less than `2 ^ 31` characters has a range, which ends where the text does. -/
theorem fullRange_of_short {text : List Char} (hshort : text.length < 2147483648) :
    fullRange text = .ok ⟨⟨0, 0⟩, ⟨text.count '\n', lastWidth text⟩⟩ := by
  have hmax : maxFieldValue = 2147483647 := rfl
  have hcount : text.count '\n' ≤ text.length := List.count_le_length
  have hwidth := lastWidth_le text
  have hfirst : Position.make 0 0 = .ok ⟨0, 0⟩ := rfl
  have hlast : Position.make (text.count '\n' : Nat) (lastWidth text : Nat) =
      .ok ⟨text.count '\n', lastWidth text⟩ := Position.make_of_le (by omega) (by omega)
  rw [fullRange, length_last_line, length_lines, Nat.add_sub_cancel]
  simp [hfirst, hlast, bind, Except.bind, pure, Except.pure]

theorem offset_start (text : List Char) : (⟨0, 0⟩ : Position).offset text = 0 :=
  Position.offset_append [] text

theorem offset_end (text : List Char) :
    (⟨text.count '\n', lastWidth text⟩ : Position).offset text = text.length := by
  have hend := Position.offset_append text []
  rwa [List.append_nil] at hend

/-! ### What a host can hold -/

theorem holds_unlimited (n : Nat) : Host.holds {} n = true :=
  rfl

theorem holds_of_le {host : Host} {m n : Nat} (h : host.holds n = true) (hle : m ≤ n) :
    host.holds m = true := by
  unfold Host.holds at h ⊢
  cases hlength : host.length with
  | none => rfl
  | some limit =>
      have hn : n ≤ limit := by simpa [hlength] using h
      simpa using Nat.le_trans hle hn

theorem length_le_unlines {line : List Char} {ls : List (List Char)} (h : line ∈ ls) :
    line.length ≤ (unlines ls).length := by
  induction ls with
  | nil => cases h
  | cons first rest ih =>
      rcases List.mem_cons.mp h with rfl | hrest
      · cases rest with
        | nil => simp
        | cons below more => simp
      · have hle := ih hrest
        rw [unlines_cons first (List.ne_nil_of_mem hrest), List.length_append, List.length_cons]
        omega

/-- Within the limits of a host lines are laid out as they are without them, or one of them is too long. -/
theorem arrangeWithin_cases (host : Host) (tab level : Nat) (afterText : Bool) (ls : List (List Char)) :
    arrangeWithin host tab level afterText ls = .ok (arrange tab level afterText ls) ∨
      ∃ count, arrangeWithin host tab level afterText ls = .error (.tooLong count) ∧
        host.holds count = false ∧ ∃ line ∈ arrange tab level afterText ls, count ≤ line.length := by
  fun_induction arrange tab level afterText ls with
  | case1 level afterText => exact Or.inl rfl
  | case2 level raw rest line hblank ih =>
      rw [arrangeWithin, if_pos hblank, if_pos rfl]
      rcases ih with hok | ⟨count, herror, hholds, long, hlong, hle⟩
      · exact Or.inl (by rw [hok]; rfl)
      · exact Or.inr ⟨count, by rw [herror]; rfl, hholds, long, List.mem_cons_of_mem _ hlong, hle⟩
  | case3 level afterText raw rest line hblank hafter ih =>
      rw [arrangeWithin, if_pos hblank, if_neg hafter]
      exact ih
  | case4 level afterText raw rest line hblank here content below ih =>
      rw [arrangeWithin, if_neg hblank]
      dsimp only
      cases hblanks : host.holds (here * tab) with
      | false =>
          refine Or.inr ⟨here * tab, ?_, hblanks, _, List.mem_cons_self, by simp⟩
          rw [Host.blanks, hblanks]
          rfl
      | true =>
          rw [Host.blanks, hblanks]
          rcases ih with hok | ⟨count, herror, hholds, long, hlong, hle⟩
          · exact Or.inl (by rw [hok]; rfl)
          · exact Or.inr ⟨count, by rw [herror]; rfl, hholds, long, List.mem_cons_of_mem _ hlong, hle⟩

/-- A text is formatted within the limits of a host exactly if the host can hold the formatted text. -/
theorem formatWithin_outcome (host : Host) (source : String) (requested : Int) :
    if host.holds (format source requested).length then
      formatWithin host source requested = .ok (format source requested)
    else ∃ length, formatWithin host source requested = .error (.tooLong length) ∧
      host.holds length = false ∧ length ≤ (format source requested).length := by
  have hlength : (format source requested).length = (formatChars (tabSize requested) source.toList).length := by
    rw [format, String.length_ofList]
  rw [hlength, formatWithin]
  rcases arrangeWithin_cases host (tabSize requested) 0 false (lines (breakAtBraces source.toList)) with
    hok | ⟨count, herror, hcount, line, hline, hle⟩
  · rw [hok]
    have hhold : (do return String.ofList (← host.hold (formatChars (tabSize requested) source.toList)) :
        Except Failure String) = if host.holds (formatChars (tabSize requested) source.toList).length then
          .ok (format source requested)
        else .error (.tooLong (formatChars (tabSize requested) source.toList).length) := by
      rw [Host.hold]
      split <;> rfl
    split
    · rename_i hholds
      exact hhold.trans (if_pos hholds)
    · rename_i hholds
      exact ⟨_, hhold.trans (if_neg hholds), by simpa using hholds, Nat.le_refl _⟩
  · have hshort : count ≤ (formatChars (tabSize requested) source.toList).length :=
      Nat.le_trans hle (length_le_unlines hline)
    have hlong : ¬ host.holds (formatChars (tabSize requested) source.toList).length = true := fun hholds =>
      Bool.false_ne_true (hcount.symm.trans (holds_of_le hholds hshort))
    rw [if_neg hlong, herror]
    exact ⟨count, rfl, hcount, hshort⟩

theorem formatWithin_of_holds {host : Host} {source : String} {requested : Int}
    (hholds : host.holds (format source requested).length = true) :
    formatWithin host source requested = .ok (format source requested) := by
  have houtcome := formatWithin_outcome host source requested
  rwa [if_pos hholds] at houtcome

/-! ### The edits of a text -/

theorem edits_of_formatWithin {host : Host} {source formatted : String} {requested : Int}
    (h : formatWithin host source requested = .ok formatted) :
    edits source requested host =
      if source = formatted then .ok [] else (fullRange source.toList).map fun range => [⟨range, formatted⟩] := by
  rw [edits, h]
  cases fullRange source.toList <;> rfl

/-- A text is edited exactly if formatting changes it, and then as a whole. -/
theorem edits_of_holds {source : String} (hshort : source.length < 2147483648) {requested : Int}
    {host : Host} (hholds : host.holds (format source requested).length = true) :
    edits source requested host =
      .ok (if format source requested = source then []
        else [⟨⟨⟨0, 0⟩, ⟨source.toList.count '\n', lastWidth source.toList⟩⟩,
          format source requested⟩]) := by
  have hrange : fullRange source.toList = .ok _ := fullRange_of_short (by rwa [String.length_toList])
  rw [edits_of_formatWithin (formatWithin_of_holds hholds)]
  by_cases h : format source requested = source
  · rw [if_pos h.symm, if_pos h]
  · rw [if_neg (Ne.symm h), if_neg h, hrange]
    rfl

theorem edits_of_short {source : String} (hshort : source.length < 2147483648) (requested : Int) :
    edits source requested =
      .ok (if format source requested = source then []
        else [⟨⟨⟨0, 0⟩, ⟨source.toList.count '\n', lastWidth source.toList⟩⟩,
          format source requested⟩]) :=
  edits_of_holds hshort (holds_unlimited _)

/-- A change of a whole text leaves the new text alone. -/
theorem apply_whole (source new : String) :
    TextEdit.apply ⟨⟨⟨0, 0⟩, ⟨source.toList.count '\n', lastWidth source.toList⟩⟩, new⟩ source = new := by
  simp [TextEdit.apply, offset_start, offset_end]

/-- Formatted text has no edits, however long it is. -/
theorem edits_format_self (source : String) (requested : Int) :
    edits (format source requested) requested = .ok [] := by
  have hself : format (format source requested) requested = format source requested := by
    simp only [format, String.toList_ofList, formatChars_formatChars]
  have hformat := formatWithin_of_holds (holds_unlimited (format (format source requested) requested).length)
  rw [edits_of_formatWithin hformat, hself, if_pos rfl]

/-- For a text of less than `2 ^ 31` characters, which is not too long for the editor, there are no edits exactly
if it is formatted, and otherwise there is one, from the start of the text to its end, which makes it the formatted
text.  A session with the text formats it with edits that leave nothing to edit once the document has been changed
by them, whatever reads the document. -/
theorem edits_format (source : String) (hshort : source.length < 2147483648) (requested : Int) :
    (edits source requested = .ok [] ↔ format source requested = source) ∧
    (format source requested ≠ source → ∃ edit, edits source requested = .ok [edit] ∧
      edit.range.first.offset source.toList = 0 ∧
      edit.range.last.offset source.toList = source.length ∧
      edit.apply source = format source requested) ∧
    ∀ (read : Reader) (s : Session) (uri : String), s.text? uri = some source →
      ∃ changes, s.format uri requested = .ok changes ∧
        TextEdit.applyAll changes source = format source requested ∧
        (s.changeDocument read uri (TextEdit.applyAll changes source)).state.format uri requested =
          .ok [] := by
  have hedits := edits_of_short hshort requested
  refine ⟨?_, fun h => ?_, fun read s uri htext => ?_⟩
  · rw [hedits]
    by_cases h : format source requested = source <;> simp [h]
  · rw [hedits, if_neg h]
    refine ⟨_, rfl, offset_start _, ?_, apply_whole source _⟩
    rw [offset_end, String.length_toList]
  · have hformat : s.format uri requested = edits source requested := by
      rw [Session.format, htext]
    obtain ⟨changes, hchanges, happlied⟩ : ∃ changes, edits source requested = .ok changes ∧
        TextEdit.applyAll changes source = format source requested := by
      refine ⟨_, hedits, ?_⟩
      split
      · exact Eq.symm ‹_›
      · exact apply_whole source _
    have hstored : (s.changeDocument read uri (format source requested)).state.text? uri =
        some (format source requested) := by
      exact (Session.text?_tell read s (.changed uri (format source requested)) uri).trans (if_pos rfl)
    refine ⟨changes, hformat.trans hchanges, happlied, ?_⟩
    rw [happlied, Session.format, hstored]
    exact edits_format_self source requested

/-- A document with both ends of lines that an editor may write, and with a blank on its last line. -/
theorem edits_format_two_lines :
    ∃ edit changes, edits "a=1\r\nb \n " 2 = .ok [edit] ∧
      edit.apply "a=1\r\nb \n " = "a = 1;\nb;\n" ∧
      (Session.run .standard [.opened "main" "a=1\r\nb \n "]).format "main" 2 = .ok changes ∧
      ((Session.run .standard [.opened "main" "a=1\r\nb \n "]).changeDocument .standard "main"
        (TextEdit.applyAll changes "a=1\r\nb \n ")).state.format "main" 2 = .ok [] := by
  have hformat : format "a=1\r\nb \n " 2 = "a = 1;\nb;\n" := by decide +kernel
  have htext : (Session.run .standard [.opened "main" "a=1\r\nb \n "]).text? "main" =
      some "a=1\r\nb \n " := (Session.agrees_run _ _).text "main"
  obtain ⟨-, hone, hsession⟩ := edits_format "a=1\r\nb \n " (by decide) 2
  obtain ⟨edit, hedit, -, -, happly⟩ := hone (by rw [hformat]; decide)
  obtain ⟨changes, hchanges, -, hdone⟩ := hsession .standard _ "main" htext
  exact ⟨edit, changes, hedit, happly.trans hformat, hchanges, hdone⟩

end Layout

end ScriptLens
