import ScriptLens.Proofs.Layout.Meaning

/-!
# Formatting a text without strings and comments

In a text without quotes and comments there is nothing that the formatter has to leave alone.  All that it does
there is to move blanks and to add semicolons: operators that touch are told apart as the scanner tells them apart,
and no blank goes away that keeps two tokens apart.

Main statement: `tokenize_format_bare`.
-/

namespace ScriptLens.Layout

open Text Token

/-- A text in which neither a string literal nor a comment can start. -/
structure Bare (text : List Char) : Prop where
  doubleQuote : doubleQuote ∉ text
  apostrophe : apostrophe ∉ text
  lineComment : ¬['/', '/'] <:+: text
  blockComment : ¬['/', '*'] <:+: text

theorem Bare.suffix {text rest : List Char} (h : Bare text) (hrest : rest <:+ text) : Bare rest where
  doubleQuote hmem := h.doubleQuote (hrest.subset hmem)
  apostrophe hmem := h.apostrophe (hrest.subset hmem)
  lineComment hin := h.lineComment (hin.trans hrest.isInfix)
  blockComment hin := h.blockComment (hin.trans hrest.isInfix)

/-- Where a text is bare, a token is no string and no documentation. -/
theorem Bare.token {c : Char} {cs : List Char} (h : Bare (c :: cs)) {kind : Kind} {width : Nat}
    (hscan : scan c cs = .token kind width) :
    (∀ value, kind ≠ .string value) ∧ ∀ text, kind ≠ .doc text := by
  rcases scan_token_cases hscan with ⟨rest, rfl, rfl, -⟩ | ⟨rfl | rfl, -⟩ | ⟨-, hscan⟩ | ⟨-, hscan⟩ | hscan
  · exact absurd ⟨[], '/' :: rest, rfl⟩ h.lineComment
  · exact absurd List.mem_cons_self h.doubleQuote
  · exact absurd List.mem_cons_self h.apostrophe
  · obtain ⟨value, rfl⟩ := scanNumeral_kind hscan
    simp
  · rcases scanWord_kind hscan with ⟨word, rfl⟩ | ⟨name, rfl⟩ <;> simp
  · obtain ⟨m, rfl⟩ := scanMark_kind hscan
    simp

/-- Where a text is bare, nothing but spaces is passed over. -/
theorem Bare.gap {c : Char} {cs : List Char} (h : Bare (c :: cs)) {width : Nat}
    (hscan : scan c cs = .gap width) : isSpace c = true := by
  rcases scan_gap_cases hscan with ⟨hspace, -⟩ | ⟨rest, rfl, rfl, -⟩ | ⟨rest, inner, rfl, rfl, -⟩
  · exact hspace
  · exact absurd ⟨[], rest, rfl⟩ h.lineComment
  · exact absurd ⟨[], rest, rfl⟩ h.blockComment

theorem Bare.isInert {text : List Char} (h : Bare text) (semicolons : List Nat) :
    isInert semicolons text = true := by
  cases text with
  | nil => rfl
  | cons c cs =>
      rw [Layout.isInert]
      split
      · rename_i value width hscan
        exact absurd rfl ((h.token hscan).1 value)
      · rename_i text width hscan
        exact absurd rfl ((h.token hscan).2 text)
      · rfl

/-- Where a text is bare, nothing has to stay on one line. -/
theorem Bare.startsOnLine {text : List Char} (h : Bare text) : startsOnLine text = false := by
  unfold Layout.startsOnLine
  split
  · rename_i rest
    exact absurd ⟨[], rest, rfl⟩ h.lineComment
  · rename_i c rest _
    have hquotes : c ≠ Text.doubleQuote ∧ c ≠ Text.apostrophe :=
      ⟨fun hc => h.doubleQuote (hc ▸ List.mem_cons_self),
        fun hc => h.apostrophe (hc ▸ List.mem_cons_self)⟩
    simp [hquotes]
  · rfl

/-! ### The tokens themselves -/

/-- The kinds of tokens, without the semicolons. -/
def bareKinds (tokens : List Token) : List Kind :=
  (tokens.map Token.kind).filter (· ≠ .mark .semicolon)

/-- Added semicolons are the only difference where there is no documentation. -/
theorem Punctuated.bareKinds_eq {source : List Char} {allowed : Nat → Prop} {n : Nat}
    {ts ts' : List Token} (h : Punctuated source allowed n ts ts')
    (hdoc : ∀ t ∈ ts, ∀ text, t.kind ≠ .doc text) : bareKinds ts' = bareKinds ts := by
  induction h with
  | done hkind hreach => simp [bareKinds, hkind]
  | keep hkind hreach hbelow hrest ih =>
      simp only [bareKinds, List.map_cons, hkind, List.filter_cons]
      rw [← bareKinds, ← bareKinds, ih fun t ht => hdoc t (List.mem_cons_of_mem _ ht)]
  | reword ht ht' htakes hreach hbelow hrest ih => exact absurd ht (hdoc _ List.mem_cons_self _)
  | add hkind hallowed hrest ih =>
      simp only [bareKinds, List.map_cons, hkind, List.filter_cons]
      simpa [bareKinds] using ih hdoc
  | pass hle hrest ih => exact ih hdoc

/-- A bare text has no documentation. -/
theorem Bare.not_doc {text : List Char} (h : Bare text) {loc : Location} {tokens : List Token}
    (htokens : tokensFrom 0 loc text = .ok tokens) : ∀ t ∈ tokens, ∀ text, t.kind ≠ .doc text := by
  intro t ht said hkind
  obtain ⟨before, c, cs, width, rfl, -, hscan⟩ :=
    scan_of_mem_tokensFrom htokens ht (by rw [hkind]; simp)
  exact ((h.suffix (List.suffix_append before _)).token hscan).2 said hkind

/-- A text without quotes and comments that can be cut into tokens can be cut into the same tokens after it was
formatted, semicolons aside. -/
theorem tokenize_format_bare {source : String} (hbare : Bare source.toList) {file : Option String}
    {tokens : List Token} (h : tokenize source file = .ok tokens) (n : Int) :
    ∃ formatted, tokenize (format source n) file = .ok formatted ∧
      bareKinds formatted = bareKinds tokens := by
  have hinert : ∀ rest ∈ places source.toList,
      isInert (addedSemicolons source.toList) rest = true := by
    intro rest hrest
    exact (hbare.suffix (suffix_of_mem_places hrest)).isInert _
  have hbroken : ∀ rest ∈ places source.toList, startsOnLine rest = true → breakAtBraces rest = rest := by
    intro rest hrest hstarts
    rw [(hbare.suffix (suffix_of_mem_places hrest)).startsOnLine] at hstarts
    cases hstarts
  have hstands : StandsAt source.toList (.start file) source.toList := ⟨Int.le_refl 0, rfl⟩
  obtain ⟨formatted, hformatted, hpunctuated⟩ := exists_punctuated hstands (tokensFrom_of_tokenize h) hinert
    hbroken (tabSize n) (.start file)
  refine ⟨formatted, ?_, hpunctuated.bareKinds_eq (hbare.not_doc (tokensFrom_of_tokenize h))⟩
  rw [tokenize, format, String.toList_ofList, hformatted]
  rfl

/-- Operators that touch, a division at the start of a line, and an object: all keep their tokens. -/
theorem tokenize_format_bare_operators :
    ∃ tokens, tokenize "a!==b=>=c<==d\n/ 2\n\x7bx:1.5\x7d" none = .ok tokens ∧
      ∃ formatted, tokenize (format "a!==b=>=c<==d\n/ 2\n\x7bx:1.5\x7d" 0) none = .ok formatted ∧
        bareKinds formatted = bareKinds tokens := by
  have hbare : Bare "a!==b=>=c<==d\n/ 2\n\x7bx:1.5\x7d".toList := by
    constructor <;> decide +kernel
  have hsome : (tokenize "a!==b=>=c<==d\n/ 2\n\x7bx:1.5\x7d" none).toOption.isSome = true := by
    decide +kernel
  cases htokens : tokenize "a!==b=>=c<==d\n/ 2\n\x7bx:1.5\x7d" none with
  | error failure =>
      rw [htokens] at hsome
      cases hsome
  | ok tokens => exact ⟨tokens, rfl, tokenize_format_bare hbare htokens 0⟩

end ScriptLens.Layout
