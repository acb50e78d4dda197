import ScriptLens.Proofs.Session.Diagnostics
import Mathlib.Data.List.Basic

/-!
# Texts whose diagnostics cannot be built

The language complains about a place of the text that it reads, or about a numeral without naming a place.  On
the line of the place at least one character is underlined.  In a text that is not too long for the editor there
is room for that, up to one exception: a single line of as many characters as the protocol has numbers for, at
fault behind its last character.

Main statement: `exists_diagnostics_iff`.
-/

namespace ScriptLens

open Text

/-! ### Numerals name no place -/

namespace Text

theorem hexDigit_ne_colon {n : Nat} (h : n < 16) : hexDigit n ≠ ':' := by
  revert n
  decide

theorem colon_not_mem_hexDigits (width n : Nat) : ':' ∉ hexDigits width n := by
  induction width generalizing n with
  | zero => exact List.not_mem_nil
  | succ width ih =>
      intro h
      rcases List.mem_append.mp h with hfront | hlast
      · exact ih _ hfront
      · exact hexDigit_ne_colon (Nat.mod_lt n (by omega)) (List.mem_singleton.mp hlast).symm

theorem colon_not_mem_quotedChar {quote c : Char} (h : c ≠ ':') : ':' ∉ quotedChar quote c := by
  unfold quotedChar hexEscape
  split_ifs <;> simp [h.symm, colon_not_mem_hexDigits]

/-- Quoting a text brings no colon into it. -/
theorem colon_not_mem_quoted {text : String} (h : ':' ∉ text.toList) : ':' ∉ (quoted text).toList := by
  have hquote : ':' ≠ quoteFor text.toList := by
    unfold quoteFor
    split <;> decide
  have hchars : ':' ∉ text.toList.flatMap (quotedChar (quoteFor text.toList)) := by
    intro hmem
    obtain ⟨c, hc, hcolon⟩ := List.mem_flatMap.mp hmem
    refine colon_not_mem_quotedChar ?_ hcolon
    rintro rfl
    exact h hc
  simp [quoted, hquote, hchars]

end Text

namespace Token

theorem isNumeralChar_of_mem_fraction {cs : List Char} {d : Char} (h : d ∈ fraction cs) :
    isNumeralChar d = true := by
  unfold fraction at h
  split at h
  · split at h
    · exact List.all_eq_true.mp List.all_takeWhile d h
    · cases h
  · cases h

/-- A numeral without a value has no colon in it. -/
theorem colon_not_mem_of_valueless {c : Char} {cs numeral : List Char}
    (h : scan c cs = .valueless numeral) : ':' ∉ numeral := by
  have hother : isNumeralChar ':' = false := by decide
  have hrun : ':' ∉ (c :: cs).takeWhile isNumeralChar := fun hmem => by
    rw [List.all_eq_true.mp List.all_takeWhile _ hmem] at hother
    cases hother
  have hfraction : ∀ rest, ':' ∉ fraction rest := fun rest hmem => by
    rw [isNumeralChar_of_mem_fraction hmem] at hother
    cases hother
  obtain ⟨hdigit, -⟩ := (scan_eq_valueless_iff c cs).mp ⟨numeral, h⟩
  rw [scan_of_isDigit hdigit, scanNumeral] at h
  split at h
  · cases h
  · obtain rfl := Scan.valueless.inj h
    simp only [List.mem_append, List.mem_filter, not_or]
    refine ⟨⟨fun hmem => hrun hmem.1, ?_⟩, fun hmem => hfraction _ hmem.1⟩
    split <;> decide

end Token

namespace Diagnosis

/-- A text whose only colon has a space behind it names no place. -/
theorem not_names_of_space {front back : List Char} (hfront : ':' ∉ front) (hback : ':' ∉ back)
    (line column : List Char) : ¬Names (front ++ ':' :: ' ' :: back) line column := by
  rintro ⟨before, rest, hcut, ⟨behind, -, ⟨rfl, hsome, hdecimal, -⟩, -⟩, -⟩
  obtain ⟨-, -, hrest⟩ := (List.append_cons_inj_of_notMem hfront (by simpa using hback)).mp hcut
  cases line with
  | nil => exact hsome rfl
  | cons d digits =>
      obtain rfl : ' ' = d := (List.cons.inj hrest).1
      exact absurd (hdecimal ' ' List.mem_cons_self) (by decide)

/-- A numeral without a value is about no place. -/
theorem about_numeral {c : Char} {cs numeral : List Char}
    (h : Token.scan c cs = .valueless numeral) : About (.numeral (String.ofList numeral)) 0 0 := by
  have hquoted : ':' ∉ (quoted (String.ofList numeral)).toList :=
    colon_not_mem_quoted (by simpa using Token.colon_not_mem_of_valueless h)
  have hmessage : (Failure.numeral (String.ofList numeral)).message =
      "could not convert string to float: " ++ quoted (String.ofList numeral) := rfl
  have hcolon : "could not convert string to float: ".toList =
      "could not convert string to float".toList ++ [':', ' '] := by simp
  refine .unnamed rfl fun line column => ?_
  rw [hmessage, String.toList_append, hcolon, List.append_assoc, List.cons_append, List.cons_append,
    List.nil_append]
  exact not_names_of_space (by decide) hquoted line column

/-! ### Room for an underline -/

/-- The underlined token ends on its line, if anything of the line is underlined. -/
theorem underlineEnd_le (line : List Char) (start : Nat) :
    underlineEnd line start ≤ max (start + 1 : Nat) line.length := by
  have hrun := (List.takeWhile_sublist (l := fromCharacter line start) (!endsToken ·)).length_le
  have hline : (fromCharacter line start).length = line.length - start := by
    rw [fromCharacter, if_neg (by omega), List.length_drop, Int.toNat_natCast]
  unfold underlineEnd
  dsimp only
  omega

end Diagnosis

/-! ### How the language fails -/

theorem length_getD_le {line? : Option (List Char)} {n : Nat} (h : ∀ line ∈ line?, line.length ≤ n) :
    (line?.getD []).length ≤ n := by
  cases line? with
  | none => exact Nat.zero_le n
  | some line => exact h line rfl

/-- The line that a fault of the cutting into tokens quotes is no longer than the text. -/
theorem Token.length_quotedLine_le (source : List Char) (cause : Cause) (loc : Location) :
    (quotedLine source cause loc).length ≤ source.length := by
  unfold quotedLine
  split
  · exact length_getD_le fun line hline => length_le_of_mem_lines (List.mem_of_getLast? hline)
  · exact length_getD_le fun line hline => length_le_of_mem_lines (List.mem_of_getElem? hline)

/-- Reading fails at a numeral without a value or with a fault that quotes no more than the text. -/
theorem Syntax.read_error_cases {source : String} {file : Option String} {e : Failure}
    (h : read source file = .error e) :
    (∃ c cs numeral, Token.scan c cs = .valueless numeral ∧ e = .numeral (String.ofList numeral)) ∨
      ∃ f, e = .fault f ∧ ∀ line, f.sourceLine = some line → line.length ≤ source.length := by
  rw [read] at h
  cases htokens : Token.tokenize source file with
  | error failure =>
      rw [htokens] at h
      obtain rfl : failure = e := Except.error.inj h
      obtain ⟨stop, hstop, rfl⟩ := Token.stop_of_tokenize htokens
      cases stop with
      | valueless numeral =>
          obtain ⟨c, cs, hscan⟩ := Token.scan_of_valueless hstop
          exact .inl ⟨c, cs, numeral, hscan, rfl⟩
      | fault cause loc =>
          refine .inr ⟨_, rfl, fun line hline => ?_⟩
          obtain rfl := Option.some.inj hline
          rw [String.length_ofList, ← String.length_toList]
          exact Token.length_quotedLine_le source.toList cause loc
  | ok tokens =>
      rw [htokens] at h
      replace h : readTokens tokens source file = .error e := h
      rw [readTokens] at h
      cases hprogram : programOf tokens with
      | ok p =>
          rw [hprogram] at h
          cases h
      | error m =>
          rw [hprogram] at h
          obtain rfl := Except.error.inj h
          refine .inr ⟨_, rfl, fun line hline => ?_⟩
          rw [Misfit.toFault] at hline
          split at hline
          · obtain ⟨quoted, hquoted, rfl⟩ := Option.map_eq_some_iff.mp hline
            rw [String.length_ofList, ← String.length_toList]
            exact length_le_of_mem_visualLines (List.mem_of_getElem? hquoted)
          · cases hline

/-! ### Diagnostics of a text -/

/-- A text is a single line of as many characters as the protocol has numbers for, and it is at fault behind its
last character. -/
structure Overruns (source : String) (file : Option String) : Prop where
  length : source.length = 2147483647
  oneLine : '\n' ∉ source.toList
  atEnd : ∃ f loc, Syntax.read source file = .error (.fault f) ∧ f.location = some loc ∧
    loc.offset = source.length

namespace Diagnosis

/-- What is underlined is a part of a line that is no longer than the text. -/
theorem length_underlined_le {source : String} {e : Failure}
    (h : ∀ line, quotedLine? e = some line → line.length ≤ source.length) (row : Int) :
    (underlined source e row).length ≤ source.length := by
  rw [underlined]
  cases hquoted : quotedLine? e with
  | some line =>
      rw [Option.map_some, Option.getD_some, String.length_toList]
      exact h line hquoted
  | none =>
      rw [Option.map_none, Option.getD_none, ← String.length_toList]
      exact length_getD_le fun line hline => length_le_of_mem_lines (List.mem_of_getElem? hline)

/-- A failure that is about no place can be shown on the first line. -/
theorem showable_of_about_zero {source : String} (hshort : source.length < 2147483648) {e : Failure}
    (habout : About e 0 0) (h : ∀ line, quotedLine? e = some line → line.length ≤ source.length) :
    Showable source e := by
  have hmax : maxFieldValue = 2147483647 := rfl
  have hlength := length_underlined_le h 0
  have hend : underlinedEnd source e 0 0 ≤ max (0 + 1 : Nat) (underlined source e 0).length :=
    underlineEnd_le _ 0
  exact ⟨0, 0, habout, by omega, by omega⟩

/-- A fault is about its location. -/
theorem about_fault_iff {f : Fault} {loc : Location} (h : f.location = some loc) (line column : Int) :
    About (.fault f) line column ↔ line = loc.line ∧ column = loc.column := by
  constructor
  · intro habout
    cases habout with
    | located hother =>
        obtain rfl := Option.some.inj (h.symm.trans hother)
        exact ⟨rfl, rfl⟩
    | named hnone => cases hnone.symm.trans h
    | unnamed hnone => cases hnone.symm.trans h
  · rintro ⟨rfl, rfl⟩
    exact .located h

/-- A fault of a text that is not too long for the editor can be shown, unless the text overruns. -/
theorem showable_fault_iff {source : String} (hshort : source.length < 2147483648)
    {file : Option String} {f : Fault} (h : Syntax.read source file = .error (.fault f))
    (hquoted : ∀ line, quotedLine? (.fault f) = some line → line.length ≤ source.length) :
    Showable source (.fault f) ↔ ¬Overruns source file := by
  have hmax : maxFieldValue = 2147483647 := rfl
  obtain ⟨loc, hloc, hlocated⟩ := Syntax.located_of_fault h
  obtain ⟨before, behind, hcut, hoffset, hline, hcolumn⟩ := (located_iff _ _).mp hlocated
  have hlength := length_underlined_le hquoted loc.line
  have hsource : source.length = before.length + behind.length := by
    rw [← String.length_toList, hcut, List.length_append]
  have hcount : before.count '\n' ≤ before.length := List.count_le_length
  have hwidth := lastWidth_le before
  have hstart : max 0 (loc.column - 1) = (lastWidth before : Nat) := by omega
  have hlow : (lastWidth before : Int) < underlinedEnd source (.fault f) loc.line loc.column := by
    rw [underlinedEnd, hstart]
    exact lt_underlineEnd _ _
  have hhigh : underlinedEnd source (.fault f) loc.line loc.column ≤
      max (lastWidth before + 1 : Nat) (underlined source (.fault f) loc.line).length := by
    rw [underlinedEnd, hstart]
    exact underlineEnd_le _ _
  constructor
  · rintro ⟨line, column, habout, -, hend⟩ ⟨hfull, hone, other, place, hother, hplace, hatEnd⟩
    obtain ⟨rfl, rfl⟩ := (about_fault_iff hloc line column).mp habout
    obtain rfl : f = other := Failure.fault.inj (Except.error.inj (h.symm.trans hother))
    obtain rfl : loc = place := Option.some.inj (hloc.symm.trans hplace)
    rw [hcut] at hone
    have hwide := lastWidth_of_not_mem fun hfeed => hone (List.mem_append_left behind hfeed)
    omega
  · intro hroom
    refine ⟨loc.line, loc.column, .located hloc, by omega, ?_⟩
    by_cases hfits : lastWidth before + 1 ≤ 2147483647
    · omega
    · -- the place is behind the last character of the longest line
      have hempty : behind = [] := List.eq_nil_of_length_eq_zero (by omega)
      refine absurd ⟨by omega, ?_, f, loc, h, hloc, by omega⟩ hroom
      rw [hcut, hempty, List.append_nil]
      exact not_mem_of_lastWidth_eq (by omega)

theorem exists_ofResult_error_iff {α : Type} (source : String) (e : Failure) :
    (∃ ds, ofResult source (.error e : Except Failure α) = .ok ds) ↔ Showable source e := by
  rw [← exists_shows_iff]
  constructor
  · rintro ⟨ds, hds⟩
    cases hone : ofFailure source e with
    | error failure =>
        rw [ofResult, hone] at hds
        cases hds
    | ok d => exact ⟨d, (ofFailure_eq_ok_iff source e d).mp hone⟩
  · rintro ⟨d, hd⟩
    rw [ofResult, (ofFailure_eq_ok_iff source e d).mpr hd]
    exact ⟨[d], rfl⟩

/-- The diagnostics of a text that is not too long for the editor can be built, unless the text overruns. -/
theorem exists_diagnostics_iff {source : String} (hshort : source.length < 2147483648)
    (file : Option String) :
    (∃ ds, ofResult source (Syntax.read source file) = .ok ds) ↔ ¬Overruns source file := by
  cases hread : Syntax.read source file with
  | ok p =>
      refine ⟨fun _ hoverrun => ?_, fun _ => ⟨[], rfl⟩⟩
      obtain ⟨f, loc, hfault, -⟩ := hoverrun.atEnd
      rw [hread] at hfault
      cases hfault
  | error e =>
      rw [exists_ofResult_error_iff]
      rcases Syntax.read_error_cases hread with ⟨c, cs, numeral, hscan, rfl⟩ | ⟨f, rfl, hquoted⟩
      · refine ⟨fun _ hoverrun => ?_, fun _ => ?_⟩
        · obtain ⟨f, loc, hfault, -⟩ := hoverrun.atEnd
          rw [hread] at hfault
          cases hfault
        · exact showable_of_about_zero hshort (about_numeral hscan) (by simp [quotedLine?])
      · refine showable_fault_iff hshort hread fun line hline => hquoted line ?_
        exact (Option.filter_eq_some_iff.mp hline).1

end Diagnosis

/-! ### A text that overruns -/

/-- A line with a parenthesis that is never closed, and blanks behind it. -/
def openLine (blanks : Nat) : String :=
  String.ofList ('(' :: List.replicate blanks ' ')

theorem length_openLine (blanks : Nat) : (openLine blanks).length = blanks + 1 := by
  rw [openLine, String.length_ofList, List.length_cons, List.length_replicate]

theorem tokenize_openLine (blanks : Nat) (file : Option String) :
    Token.tokenize (openLine blanks) file =
      .ok [⟨.mark .openParen, .start file⟩,
        ⟨.eof, (Location.start file).after (openLine blanks).toList⟩] := by
  have hscan : Token.scan '(' (List.replicate blanks ' ') = .token (.mark .openParen) 1 := by
    cases blanks <;> rfl
  have hspaces : ∀ d ∈ List.replicate blanks ' ', Token.isSpace d = true := by
    intro d hd
    rw [List.eq_of_mem_replicate hd]
    rfl
  have hskip := Token.tokensFrom_spaces hspaces ((Location.start file).after ['(']) []
  rw [List.append_nil] at hskip
  rw [Token.tokenize, openLine, String.toList_ofList, Token.tokensFrom_token hscan]
  dsimp only [List.take, List.drop]
  rw [hskip]
  rfl

/-- The line is at fault behind its last character, where the expression in the parenthesis is missing. -/
theorem fault_openLine (blanks : Nat) (file : Option String) :
    ∃ f loc, Syntax.read (openLine blanks) file = .error (.fault f) ∧ f.location = some loc ∧
      loc.offset = (openLine blanks).length := by
  let behind : Location := (Location.start file).after (openLine blanks).toList
  have hread : Syntax.read (openLine blanks) file = .error (.fault
      (Syntax.Misfit.toFault (openLine blanks).toList file ⟨.expression, ⟨.eof, behind⟩⟩)) := by
    rw [Syntax.read, tokenize_openLine]
    rfl
  refine ⟨_, _, hread, rfl, ?_⟩
  have hoffset := Location.offset_after_start file (openLine blanks).toList
  rwa [String.length_toList] at hoffset

/-- The longest such line that is not too long for the editor overruns. -/
theorem overruns_openLine {blanks : Nat} (h : blanks + 1 = 2147483647) (file : Option String) :
    Overruns (openLine blanks) file where
  length := (length_openLine blanks).trans h
  oneLine := by
    rw [openLine, String.toList_ofList]
    simp [List.mem_replicate]
  atEnd := fault_openLine blanks file

end ScriptLens
