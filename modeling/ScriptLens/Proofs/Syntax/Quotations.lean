import ScriptLens.Proofs.Syntax.Failures
import ScriptLens.Proofs.Text.Display

/-!
# The line that a message quotes

A token that cannot stand where it stands is reported with the line of the text that it stands on, and with a mark
under the token.  The token's line is counted by line feeds, but the quoted line is counted as a display counts lines.
So it is the line of the token as long as a display breaks neither this line nor one above it.

Main statement: `quotation_of_misfit`.
-/

namespace ScriptLens

open Text

/-! ### Marks -/

/-- A message ends with a mark on a line of its own, and `marked` is what stands on the line above, from the place of
the mark on. -/
def Fault.MarksUnder (f : Fault) (marked : List Char) : Prop :=
  ∃ head shown pad : String, f.render = head ++ "\n" ++ shown ++ "\n" ++ pad ++ "^" ∧
    '\n' ∉ shown.toList ∧ (∀ c ∈ pad.toList, c = ' ') ∧ shown.toList.drop pad.length = marked

/-- The mark stands under the column of the fault in the quoted line. -/
theorem Fault.marksUnder_of_quoted {f : Fault} {loc : Location} {line : String} {start : List Char}
    (hloc : f.location = some loc) (hcolumn : loc.column = 1 + start.length) (hline : f.sourceLine = some line)
    (hne : line ≠ "") (hfeed : '\n' ∉ line.toList) : f.MarksUnder (line.toList.drop start.length) := by
  have hpad : (quoteIndent + loc.column - 1).toNat = start.length + 4 := by
    rw [quoteIndent]
    omega
  have hshown : f.sourceLine.filter (!·.isEmpty) = some line := by
    rw [hline, Option.filter_some]
    simp [hne]
  refine ⟨"[" ++ loc.render ++ "] " ++ f.text, "    " ++ line,
    String.ofList (List.replicate (start.length + 4) ' '), ?_, ?_, ?_, ?_⟩
  · have hindent : String.ofList (List.replicate quoteIndent ' ') = "    " := rfl
    rw [Fault.render, hloc, hshown]
    dsimp only
    rw [excerpt, hindent, hpad]
    simp only [String.append_assoc]
  · simpa using hfeed
  · intro c hc
    rw [String.toList_ofList] at hc
    exact List.eq_of_mem_replicate hc
  · rw [String.length_ofList, List.length_replicate, String.toList_append]
    rfl

/-! ### Tokens at fault -/

namespace Syntax

/-- A fault of the grammar is that of a token.  It quotes what a display shows at the number of the token's line. -/
theorem misfit_of_read {source : String} {file : Option String} {f : Fault}
    (h : read source file = .error (.fault f)) (hstage : f.stage = .grammatical) :
    ∃ tokens t, Token.tokenize source file = .ok tokens ∧ t ∈ tokens ∧ f.location = some t.location ∧
      (0 < t.location.line → f.sourceLine =
        ((visualLines source.toList)[(t.location.line - 1).toNat]?).map String.ofList) := by
  rw [read] at h
  cases htokens : Token.tokenize source file with
  | error failure =>
      rw [htokens] at h
      obtain rfl : failure = .fault f := Except.error.inj h
      rcases Token.tokenize_error_cases htokens with ⟨-, text, hfailure⟩ | ⟨-, g, loc, hfailure, hlexical, -⟩
      · cases hfailure
      · obtain rfl := Failure.fault.inj hfailure
        rw [hstage] at hlexical
        cases hlexical
  | ok tokens =>
      rw [htokens] at h
      replace h : readTokens tokens source file = .error (.fault f) := h
      rw [readTokens] at h
      cases hprogram : programOf tokens with
      | ok p =>
          rw [hprogram] at h
          cases h
      | error m =>
          rw [hprogram] at h
          obtain rfl := Failure.fault.inj (Except.error.inj h)
          obtain ⟨init, hinit, -⟩ := (Token.placed_tokenize htokens).ended
          obtain ⟨t, ht, hloc⟩ := location_of_programOf (by simp [hinit]) hprogram
          have hfile := Token.file_of_tokenize htokens t ht
          refine ⟨tokens, t, rfl, ht, ?_, fun hline => ?_⟩
          · rw [Misfit.toFault, hloc, hfile, Option.or_self, ← hfile]
          · rw [Misfit.toFault, hloc, if_pos hline]

end Syntax

namespace Token

/-- The text at the place of a token starts with a character that is no white space, unless the token marks the end. -/
theorem exists_first_of_mem {source : String} {file : Option String} {tokens : List Token}
    (h : tokenize source file = .ok tokens) {t : Token} (ht : t ∈ tokens) (hkind : t.kind ≠ .eof) :
    ∃ c cs, source.toList.drop t.location.offset.toNat = c :: cs ∧ isSpace c = false := by
  obtain ⟨front, c, cs, width, hsource, hloc, hscan⟩ :=
    scan_of_mem_tokensFrom (tokensFrom_of_tokenize h) ht hkind
  refine ⟨c, cs, ?_, ?_⟩
  · rw [hloc, Location.offset_after_start, Int.toNat_natCast, hsource, List.drop_left]
  · cases hspace : isSpace c with
    | false => rfl
    | true =>
        have hgap : scan c cs = .gap 1 := by simp [scan, hspace]
        rw [hgap] at hscan
        cases hscan

/-- A token stands on a line of its text.  Unless it marks the end, a character that is no white space is there. -/
theorem exists_line_of_mem {source : String} {file : Option String} {tokens : List Token}
    (h : tokenize source file = .ok tokens) {t : Token} (ht : t ∈ tokens) :
    ∃ above start ending below, LineCut source.toList above (start ++ ending) below ∧
      t.location.line = 1 + above.count '\n' ∧ t.location.column = 1 + start.length ∧
      source.toList.drop t.location.offset.toNat = ending ++ below ∧
      (t.kind ≠ .eof → ∃ c cs, ending = c :: cs ∧ isSpace c = false) := by
  have hlocated : Located source.toList t.location := (placed_tokenize h).located t ht
  obtain ⟨above, start, ending, below, hcut, hline, hcolumn, hbehind⟩ := hlocated.exists_lineCut
  refine ⟨above, start, ending, below, hcut, hline, hcolumn, hbehind, fun hkind => ?_⟩
  obtain ⟨c, cs, hfirst, hspace⟩ := exists_first_of_mem h ht hkind
  rw [hbehind] at hfirst
  cases ending with
  | nil =>
      -- the character would be the line feed behind the line
      rcases hcut.below with rfl | ⟨rest, rfl⟩
      · cases hfirst
      · obtain rfl : '\n' = c := (List.cons.inj hfirst).1
        cases hspace
  | cons d ds =>
      obtain rfl : d = c := (List.cons.inj hfirst).1
      exact ⟨d, ds, rfl, hspace⟩

end Token

namespace Syntax

/-- A token that cannot stand where it stands is reported at its place.  The quoted line is the one that a display
shows at the number of the token's line, if it shows so many.  That line is the token's line, whole up to a carriage
return at its end, exactly if the display breaks neither this line nor one above it.  In that case the line is quoted
unless it is an empty line at the end of the text, and the mark in the message stands under the token. -/
theorem quotation_of_misfit {source : String} {file : Option String} {f : Fault}
    (h : read source file = .error (.fault f)) (hstage : f.stage = .grammatical) :
    ∃ tokens t above line below,
      Token.tokenize source file = .ok tokens ∧ t ∈ tokens ∧ f.location = some t.location ∧
      LineCut source.toList above line below ∧
      (lines source.toList)[(t.location.line - 1).toNat]? = some line ∧
      f.sourceLine =
        ((visualLines above ++ visualLines (line ++ below))[(t.location.line - 1).toNat]?).map String.ofList ∧
      (line ++ below ≠ [] →
        ((t.location.line - 1).toNat = (visualLines above).length ∧
            (visualLines (line ++ below)).head? = some (bare line) ↔
          Straight (above ++ line))) ∧
      (Straight (above ++ line) →
        f.sourceLine = (if line ++ below = [] then none else some (String.ofList (bare line))) ∧
        ∀ quoted, f.sourceLine = some quoted → quoted ≠ "" →
          ∃ marked, f.MarksUnder marked ∧ marked <+: source.toList.drop t.location.offset.toNat ∧
            (t.kind ≠ .eof → marked ≠ [])) := by
  obtain ⟨tokens, t, htokens, ht, hlocation, hquoted⟩ := misfit_of_read h hstage
  obtain ⟨above, start, ending, below, hcut, hline, hcolumn, hbehind, hfirst⟩ := Token.exists_line_of_mem htokens ht
  have hnumber : (t.location.line - 1).toNat = above.count '\n' := by omega
  replace hquoted := hquoted (by omega)
  refine ⟨tokens, t, above, start ++ ending, below, htokens, ht, hlocation, hcut, ?_⟩
  rw [hnumber] at hquoted ⊢
  refine ⟨hcut.getElem?_lines, ?_, hcut.shown_iff, fun hstraight => ?_⟩
  · rw [hquoted, hcut.visualLines_eq]
  · rw [hquoted, hcut.getElem?_visualLines hstraight]
    refine ⟨by split <;> rfl, fun quoted hsome hne => ?_⟩
    have hbare : quoted.toList = bare (start ++ ending) := by
      split at hsome
      · cases hsome
      · obtain rfl := Option.some.inj hsome
        exact String.toList_ofList
    have hfeed : '\n' ∉ quoted.toList := by
      rw [hbare]
      exact fun hmem => hcut.line ((bare_isPrefix _).subset hmem)
    rw [← hcut.getElem?_visualLines hstraight, ← hquoted] at hsome
    have hmarks := Fault.marksUnder_of_quoted hlocation hcolumn hsome hne hfeed
    rw [hbare] at hmarks
    refine ⟨_, hmarks, ?_, fun hkind => ?_⟩
    · rw [hbehind]
      exact (drop_bare_isPrefix start ending).trans (List.prefix_append _ _)
    · obtain ⟨c, cs, rfl, hspace⟩ := hfirst hkind
      refine drop_bare_ne_nil start ?_ cs
      rintro rfl
      cases hspace

/-- A line that ends with a carriage return and a line feed, below another one. -/
theorem quotation_of_misfit_second_line :
    ∃ f, read "// a\r\nlet = 1\r\n" none = .error (.fault f) ∧ f.stage = .grammatical ∧
      f.sourceLine = some "let = 1" ∧ ∃ marked, f.MarksUnder marked ∧ marked <+: "= 1\r\n".toList := by
  have hread : read "// a\r\nlet = 1\r\n" none = .error (.fault ⟨.grammatical,
      "Expected variable name, found '='", some ⟨2, 5, 10, none⟩, some "let = 1"⟩) := rfl
  obtain ⟨tokens, t, above, line, below, -, -, hlocation, hcut, -, -, -, hmarked⟩ :=
    quotation_of_misfit hread rfl
  have hplace : t.location = ⟨2, 5, 10, none⟩ := (Option.some.inj hlocation).symm
  have hstraight : Straight "// a\r\nlet = 1\r\n".toList := by
    intro line hline c hc
    have hall : (lines "// a\r\nlet = 1\r\n".toList).all fun l => (bare l).all (!isLineBreak ·) := by decide
    simpa using List.all_eq_true.mp (List.all_eq_true.mp hall line hline) c hc
  obtain ⟨marked, hunder, hprefix, -⟩ := (hmarked (hcut.straight hstraight)).2 "let = 1" rfl (by decide)
  rw [hplace] at hprefix
  exact ⟨_, hread, rfl, rfl, marked, hunder, hprefix⟩

/-- A form feed starts a new line of the display, here in a comment.  So the line above that of the token is quoted,
from the form feed on. -/
theorem quotation_below_form_feed :
    (lines "// a\x0cb\nlet = 1".toList)[1]? = some "let = 1".toList ∧
      read "// a\x0cb\nlet = 1" none = .error (.fault ⟨.grammatical,
        "Expected variable name, found '='", some ⟨2, 5, 11, none⟩, some "b"⟩) :=
  ⟨rfl, rfl⟩

end Syntax

end ScriptLens
