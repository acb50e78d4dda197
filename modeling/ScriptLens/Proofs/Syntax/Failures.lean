import ScriptLens.Proofs.Token.Cuts

/-!
# How reading a source text fails

Reading a text gives a program or a fault with a place in the named file, unless the text has a numeral with
a digit that is not decimal: such a numeral has no value, and the failure it leads to has no place.

Main statement: `read_outcome`.
-/

namespace ScriptLens

namespace Token

/-- Cutting a text comes to a numeral with a digit that is not decimal. -/
def StopsAtNumeral (text : List Char) : Prop :=
  ∃ c cs, c :: cs ∈ places text ∧ Text.isDigit c = true ∧
    ∃ d ∈ numeralDigits (c :: cs), Text.isDecimal d = false

theorem stopsAtNumeral_iff (loc : Location) (text : List Char) :
    StopsAtNumeral text ↔ ∃ numeral, tokensFrom 0 loc text = .error (.valueless numeral) := by
  rw [tokensFrom_eq_valueless_iff]
  simp only [scan_eq_valueless_iff]
  rfl

/-- The tokens of a text, and the place at which it cannot be cut further, are in the text's own file. -/
theorem file_of_tokenize {source : String} {file : Option String} {tokens : List Token}
    (h : tokenize source file = .ok tokens) : ∀ t ∈ tokens, t.location.file = file := by
  intro t ht
  obtain ⟨before, behind, -, hloc⟩ := (placed_tokenize h).reached t ht
  rw [hloc, Location.file_after]
  rfl

/-- Why a text cannot be cut into tokens. -/
theorem tokenize_error_cases {source : String} {file : Option String} {failure : Failure}
    (h : tokenize source file = .error failure) :
    (StopsAtNumeral source.toList ∧ ∃ text, failure = .numeral text) ∨
    (¬StopsAtNumeral source.toList ∧ ∃ f loc, failure = .fault f ∧ f.stage = .lexical ∧
      f.location = some loc ∧ loc.file = file) := by
  have hstops := stopsAtNumeral_iff (.start file) source.toList
  obtain ⟨stop, hstop, rfl⟩ := stop_of_tokenize h
  cases stop with
  | valueless numeral => exact Or.inl ⟨hstops.mpr ⟨numeral, hstop⟩, _, rfl⟩
  | fault cause loc =>
      refine Or.inr ⟨fun hnumeral => ?_, _, loc, rfl, rfl, rfl, ?_⟩
      · obtain ⟨numeral, hnumeral⟩ := hstops.mp hnumeral
        rw [hstop] at hnumeral
        cases hnumeral
      · obtain ⟨before, behind, -, rfl⟩ := reached_of_fault hstop
        rw [Location.file_after]
        rfl

theorem not_stopsAtNumeral_of_tokenize {source : String} {file : Option String} {tokens : List Token}
    (h : tokenize source file = .ok tokens) : ¬StopsAtNumeral source.toList := by
  intro hnumeral
  obtain ⟨numeral, hstop⟩ := (stopsAtNumeral_iff (.start file) source.toList).mp hnumeral
  rw [tokenize, hstop] at h
  cases h

end Token

namespace Syntax

/-- Tokens of a named file are read as a program, or one of them is at fault. -/
theorem readTokens_cases {tokens : List Token} (hne : tokens ≠ []) {file : Option String}
    (hfile : ∀ t ∈ tokens, t.location.file = file) (quoted : String) :
    (∃ p, readTokens tokens quoted file = .ok p) ∨
      ∃ f loc, readTokens tokens quoted file = .error (.fault f) ∧ f.stage = .grammatical ∧
        f.location = some loc ∧ loc.file = file := by
  rw [readTokens]
  cases hprogram : programOf tokens with
  | ok p => exact Or.inl ⟨p, rfl⟩
  | error m =>
      refine Or.inr ⟨_, _, rfl, rfl, rfl, ?_⟩
      obtain ⟨t, ht, hloc⟩ := location_of_programOf hne hprogram
      simp [hloc, hfile t ht]

/-- A text is read as a program or is at fault at a place in its file, unless cutting it comes to a numeral
with a digit that is not decimal.  In that case, and only then, reading fails without naming a place. -/
theorem read_outcome (source : String) (file : Option String) :
    (((∃ p, read source file = .ok p) ∨
        ∃ f loc, read source file = .error (.fault f) ∧
          (f.stage = .lexical ∨ f.stage = .grammatical) ∧ f.location = some loc ∧ loc.file = file) ↔
      ¬Token.StopsAtNumeral source.toList) ∧
    ((∃ text, read source file = .error (.numeral text)) ↔ Token.StopsAtNumeral source.toList) := by
  cases htokens : Token.tokenize source file with
  | error failure =>
      have hread : read source file = .error failure := by
        rw [read, htokens]
        rfl
      rcases Token.tokenize_error_cases htokens with
        ⟨hstops, text, rfl⟩ | ⟨hstops, f, loc, rfl, hstage, hloc, hfile⟩
      · simp [hread, hstops]
      · simp [hread, hstops, hstage, hloc, hfile]
  | ok tokens =>
      have hread : read source file = readTokens tokens source file := by
        rw [read, htokens]
        rfl
      have hstops := Token.not_stopsAtNumeral_of_tokenize htokens
      obtain ⟨init, hinit, -⟩ := (Token.placed_tokenize htokens).ended
      have hne : tokens ≠ [] := by simp [hinit]
      rcases readTokens_cases hne (Token.file_of_tokenize htokens) source with
        ⟨p, hp⟩ | ⟨f, loc, hf, hstage, hloc, hfile⟩
      · simp [hread, hp, hstops]
      · simp [hread, hf, hstops, hstage, hloc, hfile]

/-- A superscript two is a digit, but no decimal one: the text is neither a program nor at a fault with a
place. -/
theorem read_superscript_two :
    ¬((∃ p, read "²" (some "main.cs") = .ok p) ∨
      ∃ f loc, read "²" (some "main.cs") = .error (.fault f) ∧
        (f.stage = .lexical ∨ f.stage = .grammatical) ∧ f.location = some loc ∧
        loc.file = some "main.cs") := by
  have hread : read "²" (some "main.cs") = .error (.numeral "²") := rfl
  simp [hread]

end Syntax

end ScriptLens
