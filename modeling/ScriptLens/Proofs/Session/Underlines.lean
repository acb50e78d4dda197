import ScriptLens.Proofs.Session.Overrun
import ScriptLens.Proofs.Text.Display

/-!
# What a diagnostic underlines

A text that cannot be cut into tokens has a diagnostic at the place of its fault.  How far the underline goes is
measured on the line that the fault quotes.  That is the line of the fault, with one exception: a comment that is
left open quotes the last line of the text, which need not be the line that the comment starts on.

Main statement: `underline_of_lexical_fault`.
-/

namespace ScriptLens

open Text

/-- A fault quotes its own line, unless it is a comment that is left open. -/
theorem Token.quotedLine_of_ne {cause : Cause} (h : cause ≠ .openComment) (source : List Char) (loc : Location) :
    quotedLine source cause loc = (lines source)[(loc.line - 1).toNat]?.getD [] := by
  cases cause with
  | openComment => exact absurd rfl h
  | _ => rfl

theorem Position.eq_of_make {line character : Nat} {position : Position}
    (h : make line character = .ok position) : position = ⟨line, character⟩ := by
  obtain ⟨hline, hcharacter⟩ := make_eq_ok h
  change Position.mk position.line position.character = _
  rw [Int.ofNat.inj hline, Int.ofNat.inj hcharacter]

namespace Diagnosis

/-! ### Ranges within a token -/

/-- A range of a line is one character wide, or it ends on the line and no character in it ends a token. -/
def WithinToken (line : List Char) (range : Range) : Prop :=
  range.last.character = range.first.character + 1 ∨
    range.last.character ≤ line.length ∧
      ∀ c ∈ (line.take range.last.character).drop range.first.character, endsToken c = false

/-- The number of characters from a place of a line on before one that ends a token. -/
def tokenWidth (line : List Char) (start : Nat) : Nat :=
  ((line.drop start).takeWhile (!endsToken ·)).length

theorem underlineEnd_natCast (line : List Char) (start : Nat) :
    underlineEnd line start = (start + max 1 (tokenWidth line start) : Nat) := by
  have hfrom : fromCharacter line start = line.drop start := by
    rw [fromCharacter, if_neg (by omega), Int.toNat_natCast]
  rw [underlineEnd, hfrom]
  rfl

/-- What ends where a token of the line does stays within the token. -/
theorem withinToken_of_width {line : List Char} {range : Range}
    (h : range.last.character = range.first.character + max 1 (tokenWidth line range.first.character)) :
    WithinToken line range := by
  have hrun := List.takeWhile_prefix (l := line.drop range.first.character) (!endsToken ·)
  have hlength := hrun.length_le
  rw [List.length_drop] at hlength
  change tokenWidth line range.first.character ≤ _ at hlength
  by_cases hwide : tokenWidth line range.first.character ≤ 1
  · exact Or.inl (by omega)
  · have hend : range.last.character = range.first.character + tokenWidth line range.first.character := by omega
    refine Or.inr ⟨by omega, fun c hc => ?_⟩
    have hcovered : (line.take range.last.character).drop range.first.character =
        (line.drop range.first.character).takeWhile (!endsToken ·) := by
      rw [hend, List.drop_take, Nat.add_sub_cancel_left]
      exact (List.prefix_iff_eq_take.mp hrun).symm
    rw [hcovered] at hc
    simpa using List.all_eq_true.mp List.all_takeWhile c hc

/-! ### The line that is measured -/

/-- A comment is left open on a line above the last one, and something is on the last line. -/
structure OpenAbove (source : List Char) (cause : Token.Cause) (loc : Location) (last : List Char) : Prop where
  comment : cause = .openComment
  above : '\n' ∈ source.drop loc.offset.toNat
  lastLine : (lines source).getLast? = some last
  someText : last ≠ []

variable {source : String} {cause : Token.Cause} {loc : Location}

/-- The underline is measured on the line that a fault quotes, unless nothing is on that line. -/
theorem underlined_stop {line : List Char} (h : (lines source.toList)[(loc.line - 1).toNat]? = some line) :
    underlined source (Token.Stop.toFailure source.toList (.fault cause loc)) loc.line =
      if Token.quotedLine source.toList cause loc = [] then line
      else Token.quotedLine source.toList cause loc := by
  rw [underlined, h, Token.Stop.toFailure, quotedLine?]
  by_cases hempty : Token.quotedLine source.toList cause loc = []
  · rw [hempty, if_pos rfl]
    rfl
  · have hsome : (String.ofList (Token.quotedLine source.toList cause loc)).isEmpty = false := by
      simpa using hempty
    rw [if_neg hempty, Option.filter_some, hsome]
    exact String.toList_ofList

/-- A comment that is left open above the last line is measured on the last line. -/
theorem underlined_of_openAbove {line last : List Char}
    (hline : (lines source.toList)[(loc.line - 1).toNat]? = some line)
    (h : OpenAbove source.toList cause loc last) :
    underlined source (Token.Stop.toFailure source.toList (.fault cause loc)) loc.line = last := by
  have hquoted : Token.quotedLine source.toList cause loc = last := by
    rw [h.comment, Token.quotedLine, h.lastLine]
    rfl
  rw [underlined_stop hline, hquoted, if_neg h.someText]

/-- Any other fault is measured on its own line. -/
theorem underlined_of_not_openAbove {above start ending below : List Char}
    (hcut : LineCut source.toList above (start ++ ending) below)
    (hnumber : (loc.line - 1).toNat = above.count '\n')
    (hbehind : source.toList.drop loc.offset.toNat = ending ++ below)
    (h : ¬∃ last, OpenAbove source.toList cause loc last) :
    underlined source (Token.Stop.toFailure source.toList (.fault cause loc)) loc.line = start ++ ending := by
  have hline : (lines source.toList)[(loc.line - 1).toNat]? = some (start ++ ending) := by
    rw [hnumber]
    exact hcut.getElem?_lines
  rw [underlined_stop hline]
  by_cases hcomment : cause = .openComment
  · have hlast := List.getLast?_eq_some_getLast (lines_ne_nil source.toList)
    generalize (lines source.toList).getLast (lines_ne_nil source.toList) = last at hlast
    have hquoted : Token.quotedLine source.toList cause loc = last := by
      rw [hcomment, Token.quotedLine, hlast]
      rfl
    rw [hquoted]
    split
    · rfl
    · rename_i hsome
      -- the comment starts on the last line
      rcases hcut.below with rfl | ⟨rest, rfl⟩
      · exact Option.some.inj (hlast.symm.trans hcut.getLast?_lines)
      · refine absurd ⟨last, hcomment, ?_, hlast, hsome⟩ h
        rw [hbehind]
        exact List.mem_append_right ending List.mem_cons_self
  · rw [Token.quotedLine_of_ne hcomment, hline, Option.getD_some, ite_self]

/-! ### The underline of a fault -/

/-- The underline of a fault starts at its place and is as wide as the token there, on the line that is measured. -/
theorem range_of_fault {f : Fault} (hloc : f.location = some loc) {row start : Nat} (hrow : loc.line = 1 + row)
    (hstart : loc.column = 1 + start) {d : Diagnostic} (h : ofFailure source (.fault f) = .ok d) :
    d.range = ⟨⟨row, start⟩,
      ⟨row, start + max 1 (tokenWidth (underlined source (.fault f) loc.line) start)⟩⟩ := by
  obtain ⟨-, line, column, habout, hfirst, hlast⟩ := (ofFailure_eq_ok_iff source (.fault f) d).mp h
  obtain ⟨rfl, rfl⟩ := (about_fault_iff hloc line column).mp habout
  have hline : max 0 (loc.line - 1) = (row : Int) := by omega
  have hcolumn : max 0 (loc.column - 1) = (start : Int) := by omega
  rw [hline, hcolumn] at hfirst
  rw [hline, underlinedEnd, hcolumn, underlineEnd_natCast] at hlast
  change Range.mk d.range.first d.range.last = _
  rw [Position.eq_of_make hfirst, Position.eq_of_make hlast]

/-- A fault of a text that is not too long for the editor has a diagnostic, unless the text is a single line of as
many characters as the protocol has numbers for and the fault is behind the last of them. -/
theorem exists_ofFailure_iff (hshort : source.length < 2147483648) {file : Option String} {f : Fault}
    (h : Syntax.read source file = .error (.fault f)) (hloc : f.location = some loc) :
    (∃ d, ofFailure source (.fault f) = .ok d) ↔
      ¬(source.length = 2147483647 ∧ '\n' ∉ source.toList ∧ loc.offset = source.length) := by
  have hquoted : ∀ line, quotedLine? (.fault f) = some line → line.length ≤ source.length := by
    rcases Syntax.read_error_cases h with ⟨c, cs, numeral, -, hnumeral⟩ | ⟨g, hg, hlength⟩
    · cases hnumeral
    · obtain rfl := Failure.fault.inj hg
      exact fun line hline => hlength line (Option.filter_eq_some_iff.mp hline).1
  rw [exists_congr (ofFailure_eq_ok_iff source (.fault f)), exists_shows_iff, showable_fault_iff hshort h hquoted,
    not_iff_not]
  constructor
  · rintro ⟨hlength, hone, g, place, hg, hplace, hend⟩
    obtain rfl : f = g := Failure.fault.inj (Except.error.inj (h.symm.trans hg))
    obtain rfl : loc = place := Option.some.inj (hloc.symm.trans hplace)
    exact ⟨hlength, hone, hend⟩
  · rintro ⟨hlength, hone, hend⟩
    exact ⟨hlength, hone, f, loc, h, hloc, hend⟩

/-- A text that cannot be cut into tokens has a diagnostic, unless it is a single line of as many characters as the
protocol has numbers for and the fault is behind the last of them.  The underline starts at the fault and stays
within the token there, on the line of the fault; but if the fault is a comment that is left open above the last
line, the underline is as wide as the token that the last line has at that character. -/
theorem underline_of_lexical_fault (hshort : source.length < 2147483648) {file : Option String} {f : Fault}
    (h : Token.tokenize source file = .error (.fault f)) :
    ∃ cause loc line, Token.tokensFrom 0 (.start file) source.toList = .error (.fault cause loc) ∧
      f.text = cause.message ∧ f.location = some loc ∧
      (lines source.toList)[(loc.line - 1).toNat]? = some line ∧
      ((∃ d, ofFailure source (.fault f) = .ok d) ↔
        ¬(source.length = 2147483647 ∧ '\n' ∉ source.toList ∧ loc.offset = source.length)) ∧
      ∀ d, ofFailure source (.fault f) = .ok d →
        (d.range.first.line : Int) = loc.line - 1 ∧ (d.range.first.character : Int) = loc.column - 1 ∧
        d.range.last.line = d.range.first.line ∧ d.range.first.character < d.range.last.character ∧
        ((¬∃ last, OpenAbove source.toList cause loc last) → WithinToken line d.range) ∧
        ∀ last, OpenAbove source.toList cause loc last → d.range.last.character =
          d.range.first.character + max 1 (tokenWidth last d.range.first.character) := by
  have hread : Syntax.read source file = .error (.fault f) := by
    rw [Syntax.read, h]
    rfl
  obtain ⟨stop, hstop, hfailure⟩ := Token.stop_of_tokenize h
  cases stop with
  | valueless numeral => cases hfailure
  | fault cause loc =>
      have htext : f.text = cause.message := by rw [Failure.fault.inj hfailure]
      have hloc : f.location = some loc := by rw [Failure.fault.inj hfailure]
      obtain ⟨place, hplace, hlocated⟩ := Token.located_of_fault h
      obtain rfl : loc = place := Option.some.inj (hloc.symm.trans hplace)
      obtain ⟨above, start, ending, below, hcut, hrow, hcolumn, hbehind⟩ := hlocated.exists_lineCut
      have hnumber : (loc.line - 1).toNat = above.count '\n' := by omega
      have hline := hcut.getElem?_lines
      rw [← hnumber] at hline
      refine ⟨cause, loc, start ++ ending, hstop, htext, hloc, hline, exists_ofFailure_iff hshort hread hloc,
        fun d hd => ?_⟩
      have hrange := range_of_fault hloc hrow hcolumn hd
      rw [hfailure] at hrange
      refine ⟨?_, ?_, ?_, ?_, fun hown => withinToken_of_width ?_, fun last hopen => ?_⟩
      · rw [hrange, hrow]
        dsimp only
        omega
      · rw [hrange, hcolumn]
        dsimp only
        omega
      · rw [hrange]
      · rw [hrange]
        dsimp only
        omega
      · rw [hrange, underlined_of_not_openAbove hcut hnumber hbehind hown]
      · rw [hrange, underlined_of_openAbove hline hopen]

/-- A character that starts no token is underlined with what follows it, up to a parenthesis. -/
theorem underline_of_lexical_fault_second_line :
    ∃ f d line, Token.tokenize "let a = 1\nlet b = @home(a)" none = .error (.fault f) ∧
      ofFailure "let a = 1\nlet b = @home(a)" (.fault f) = .ok d ∧
      d.range = ⟨⟨1, 8⟩, ⟨1, 13⟩⟩ ∧
      (lines "let a = 1\nlet b = @home(a)".toList)[1]? = some line ∧ WithinToken line d.range := by
  have hfault : Token.tokenize "let a = 1\nlet b = @home(a)" none = .error (.fault ⟨.lexical,
      "Unexpected character: '@'", some ⟨2, 9, 18, none⟩, some "let b = @home(a)"⟩) := rfl
  obtain ⟨cause, loc, line, -, htext, hlocation, hline, -, hshown⟩ := underline_of_lexical_fault (by decide) hfault
  obtain rfl : ⟨2, 9, 18, none⟩ = loc := Option.some.inj hlocation
  obtain ⟨-, -, -, -, hwithin, -⟩ := hshown _ rfl
  refine ⟨_, _, line, hfault, rfl, rfl, hline, hwithin ?_⟩
  rintro ⟨last, hopen⟩
  rw [hopen.comment] at htext
  exact absurd htext (by decide)

/-- A comment that is left open on a line of four characters is underlined as far as the eighth. -/
theorem underline_of_open_comment :
    ∃ f d, Token.tokenize "/* a\nbbbbbbbb" none = .error (.fault f) ∧
      ofFailure "/* a\nbbbbbbbb" (.fault f) = .ok d ∧ d.range = ⟨⟨0, 0⟩, ⟨0, 8⟩⟩ ∧
      (lines "/* a\nbbbbbbbb".toList)[0]? = some "/* a".toList ∧ ¬WithinToken "/* a".toList d.range := by
  refine ⟨_, _, rfl, rfl, rfl, rfl, ?_⟩
  rintro (hnarrow | ⟨hend, -⟩)
  · cases hnarrow
  · exact absurd hend (by decide)

end Diagnosis

end ScriptLens
