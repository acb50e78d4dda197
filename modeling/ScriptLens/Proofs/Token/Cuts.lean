import ScriptLens.Proofs.Token.Locations

/-!
# Cutting a text into tokens

Each scan takes at least one character, so a text is cut by scanning its front and going on with the rest.
`tokensFrom_gap` and `tokensFrom_token` say so as equations, `cut_induction` is the induction that goes with
them, and `places` lists what is left of a text wherever a scan starts.

Main statements: `scan_of_mem_tokensFrom`, and `tokensFrom_eq_valueless_iff` for the texts with a numeral
that has no value.
-/

namespace ScriptLens.Token

open Text

/-! ### Widths -/

/-- A documentation comment takes its slashes. -/
theorem three_le_scanDoc_width {cs : List Char} {kind : Kind} {width : Nat}
    (h : scanDoc ('/' :: '/' :: '/' :: cs) = .token kind width) : 3 ≤ width := by
  have hslashes : '\n' ∉ ['/', '/', '/'] := by decide
  obtain ⟨first, rest, -, hlines⟩ := lines_append hslashes cs
  have hfirst : (docText? ('/' :: '/' :: '/' :: first)).isSome = true := rfl
  replace hlines : lines ('/' :: '/' :: '/' :: cs) = ('/' :: '/' :: '/' :: first) :: rest := hlines
  simp only [scanDoc, hlines, List.takeWhile_cons, hfirst] at h
  obtain ⟨-, rfl⟩ := Scan.token.inj h
  cases rest.takeWhile fun line => (docText? line).isSome with
  | nil => simp
  | cons line below =>
      simp only [if_true]
      rw [unlines_cons _ (List.cons_ne_nil line below), List.length_append, List.length_cons]
      simp only [List.length_cons]
      omega

theorem scanString_width_pos {quote : Char} {cs : List Char} {kind : Kind} {width : Nat}
    (h : scanString quote cs = .token kind width) : 1 ≤ width := by
  unfold scanString at h
  split at h
  · obtain ⟨-, rfl⟩ := Scan.token.inj h
    omega
  · cases h
  · cases h

theorem scanNumeral_width_pos {c : Char} {cs : List Char} {kind : Kind} {width : Nat}
    (hc : isDigit c = true) (h : scanNumeral (c :: cs) = .token kind width) : 1 ≤ width := by
  have hrun : isNumeralChar c = true := by simp [isNumeralChar, hc]
  unfold scanNumeral at h
  dsimp only at h
  split at h
  · obtain ⟨-, rfl⟩ := Scan.token.inj h
    simp [hrun]
  · cases h

theorem isNameChar_of_isNameStart {c : Char} (h : isNameStart c = true) : isNameChar c = true := by
  simp only [isNameStart, isNameChar, Bool.or_eq_true] at h ⊢
  rcases h with (h | h) | h <;> simp [h]

theorem scanWord_width_pos {c : Char} {cs : List Char} {kind : Kind} {width : Nat}
    (hc : isNameStart c = true) (h : scanWord (c :: cs) = .token kind width) : 1 ≤ width := by
  unfold scanWord at h
  dsimp only at h
  rw [List.takeWhile_cons, isNameChar_of_isNameStart hc] at h
  split at h <;>
    · obtain ⟨-, rfl⟩ := Scan.token.inj h
      simp

theorem scanMark_width_pos {c : Char} {cs : List Char} {kind : Kind} {width : Nat}
    (h : scanMark c cs = .token kind width) : 1 ≤ width := by
  unfold scanMark at h
  split at h
  · cases h
    decide
  · split at h
    · cases h
      decide
    · cases h

/-- The scanner that a token comes from, by the first character of the text. -/
theorem scan_token_cases {c : Char} {cs : List Char} {kind : Kind} {width : Nat}
    (h : scan c cs = .token kind width) :
    (∃ rest, c = '/' ∧ cs = '/' :: '/' :: rest ∧ scanDoc (c :: cs) = .token kind width) ∨
    ((c = doubleQuote ∨ c = apostrophe) ∧ scanString c cs = .token kind width) ∨
    (isDigit c = true ∧ scanNumeral (c :: cs) = .token kind width) ∨
    (isNameStart c = true ∧ scanWord (c :: cs) = .token kind width) ∨
    scanMark c cs = .token kind width := by
  unfold scan at h
  split at h
  · cases h
  · split at h
    · exact Or.inl ⟨_, rfl, rfl, h⟩
    · cases h
    · split at h <;> cases h
    · split at h
      · rename_i hquote
        simp only [Bool.or_eq_true, decide_eq_true_eq] at hquote
        exact Or.inr (Or.inl ⟨hquote, h⟩)
      · split at h
        · rename_i hdigit
          exact Or.inr (Or.inr (Or.inl ⟨hdigit, h⟩))
        · split at h
          · rename_i hname
            exact Or.inr (Or.inr (Or.inr (Or.inl ⟨hname, h⟩)))
          · exact Or.inr (Or.inr (Or.inr (Or.inr h)))

theorem scan_token_width_pos {c : Char} {cs : List Char} {kind : Kind} {width : Nat}
    (h : scan c cs = .token kind width) : 1 ≤ width := by
  rcases scan_token_cases h with ⟨rest, rfl, rfl, h⟩ | ⟨-, h⟩ | ⟨hc, h⟩ | ⟨hc, h⟩ | h
  · exact Nat.le_of_add_left_le (three_le_scanDoc_width h)
  · exact scanString_width_pos h
  · exact scanNumeral_width_pos hc h
  · exact scanWord_width_pos hc h
  · exact scanMark_width_pos h

theorem scanString_ne_gap {quote : Char} {cs : List Char} {width : Nat} :
    scanString quote cs ≠ .gap width := by
  unfold scanString
  split <;> simp

theorem scanNumeral_ne_gap {cs : List Char} {width : Nat} : scanNumeral cs ≠ .gap width := by
  unfold scanNumeral
  dsimp only
  split <;> simp

theorem scanWord_ne_gap {cs : List Char} {width : Nat} : scanWord cs ≠ .gap width := by
  unfold scanWord
  dsimp only
  split <;> simp

theorem scanMark_ne_gap {c : Char} {cs : List Char} {width : Nat} : scanMark c cs ≠ .gap width := by
  unfold scanMark
  split
  · simp
  · split <;> simp

/-- What can be passed over: a blank, or a comment of either form. -/
theorem scan_gap_cases {c : Char} {cs : List Char} {width : Nat} (h : scan c cs = .gap width) :
    (isSpace c = true ∧ width = 1) ∨
    (∃ rest, c = '/' ∧ cs = '/' :: rest ∧ rest.head? ≠ some '/' ∧ width = lineWidth rest + 2) ∨
    (∃ rest inner, c = '/' ∧ cs = '*' :: rest ∧ blockCommentWidth? rest = some inner ∧
      width = inner + 2) := by
  unfold scan at h
  split at h
  · rename_i hspace
    exact Or.inl ⟨hspace, (Scan.gap.inj h).symm⟩
  · split at h
    · cases h
    · rename_i rest hdoc _
      refine Or.inr (Or.inl ⟨rest, rfl, rfl, ?_, (Scan.gap.inj h).symm⟩)
      intro hhead
      obtain ⟨tail, htail⟩ := List.head?_eq_some_iff.mp hhead
      exact hdoc tail htail
    · split at h
      · rename_i inner hinner
        exact Or.inr (Or.inr ⟨_, inner, rfl, rfl, hinner, (Scan.gap.inj h).symm⟩)
      · cases h
    · split at h
      · exact absurd h scanString_ne_gap
      · split at h
        · exact absurd h scanNumeral_ne_gap
        · split at h
          · exact absurd h scanWord_ne_gap
          · exact absurd h scanMark_ne_gap

theorem scan_gap_width_pos {c : Char} {cs : List Char} {width : Nat} (h : scan c cs = .gap width) :
    1 ≤ width := by
  rcases scan_gap_cases h with ⟨-, rfl⟩ | ⟨rest, -, -, -, rfl⟩ | ⟨rest, inner, -, -, -, rfl⟩ <;> omega

/-! ### One scan -/

/-- A scan of a positive width moves to the rest of the text. -/
theorem tokensFrom_pred {width : Nat} (hwidth : 1 ≤ width) (loc : Location) (c : Char)
    (cs : List Char) :
    tokensFrom (width - 1) (loc.next c) cs =
      tokensFrom 0 (loc.after ((c :: cs).take width)) ((c :: cs).drop width) := by
  obtain ⟨n, rfl⟩ : ∃ n, width = n + 1 := ⟨width - 1, by omega⟩
  rw [tokensFrom_skip]
  rfl

theorem tokensFrom_gap {c : Char} {cs : List Char} {width : Nat} (h : scan c cs = .gap width)
    (loc : Location) :
    tokensFrom 0 loc (c :: cs) =
      tokensFrom 0 (loc.after ((c :: cs).take width)) ((c :: cs).drop width) := by
  rw [tokensFrom, h]
  exact tokensFrom_pred (scan_gap_width_pos h) loc c cs

/-- Spaces are passed over. -/
theorem tokensFrom_spaces {g : List Char} (hg : ∀ d ∈ g, isSpace d = true) (loc : Location)
    (text : List Char) : tokensFrom 0 loc (g ++ text) = tokensFrom 0 (loc.after g) text := by
  induction g generalizing loc with
  | nil => rfl
  | cons d g ih =>
      have hscan : scan d (g ++ text) = .gap 1 := by
        simp [scan, hg d List.mem_cons_self]
      rw [List.cons_append, tokensFrom_gap hscan]
      exact ih (fun e he => hg e (List.mem_cons_of_mem d he)) _

theorem tokensFrom_token {c : Char} {cs : List Char} {kind : Kind} {width : Nat}
    (h : scan c cs = .token kind width) (loc : Location) :
    tokensFrom 0 loc (c :: cs) = (⟨kind, loc⟩ :: ·) <$>
      tokensFrom 0 (loc.after ((c :: cs).take width)) ((c :: cs).drop width) := by
  rw [← tokensFrom_pred (scan_token_width_pos h) loc c cs, tokensFrom, h]

/-- The tokens of a text with a token at its front are that one and those of the rest of the text. -/
theorem exists_of_tokensFrom_token {c : Char} {cs : List Char} {kind : Kind} {width : Nat}
    (hscan : scan c cs = .token kind width) {loc : Location} {tokens : List Token}
    (h : tokensFrom 0 loc (c :: cs) = .ok tokens) :
    ∃ rest, tokens = ⟨kind, loc⟩ :: rest ∧
      tokensFrom 0 (loc.after ((c :: cs).take width)) ((c :: cs).drop width) = .ok rest := by
  rw [tokensFrom_token hscan] at h
  cases hrest : tokensFrom 0 (loc.after ((c :: cs).take width)) ((c :: cs).drop width) with
  | error stop =>
      rw [hrest] at h
      cases h
  | ok rest =>
      rw [hrest] at h
      exact ⟨rest, (Except.ok.inj h).symm, rfl⟩

/-- What holds of the empty text, of a text at which the cutting stops, and of a text if it holds behind
what stands at its front, holds of every text. -/
@[elab_as_elim]
theorem cut_induction {motive : List Char → Prop} (nil : motive [])
    (gap : ∀ c cs width, scan c cs = .gap width → motive ((c :: cs).drop width) → motive (c :: cs))
    (token : ∀ c cs kind width, scan c cs = .token kind width → motive ((c :: cs).drop width) →
      motive (c :: cs))
    (fault : ∀ c cs cause before, scan c cs = .fault cause before → motive (c :: cs))
    (valueless : ∀ c cs text, scan c cs = .valueless text → motive (c :: cs))
    (text : List Char) : motive text := by
  induction hn : text.length using Nat.strongRecOn generalizing text with
  | ind n ih =>
      subst hn
      have hdrop : ∀ {c : Char} {cs : List Char} {width : Nat}, 1 ≤ width →
          ((c :: cs).drop width).length < (c :: cs).length := by
        intro c cs width hwidth
        rw [List.length_drop, List.length_cons]
        omega
      cases text with
      | nil => exact nil
      | cons c cs =>
          cases hscan : scan c cs with
          | gap width =>
              exact gap c cs width hscan (ih _ (hdrop (scan_gap_width_pos hscan)) _ rfl)
          | token kind width =>
              exact token c cs kind width hscan (ih _ (hdrop (scan_token_width_pos hscan)) _ rfl)
          | fault cause before => exact fault c cs cause before hscan
          | valueless numeral => exact valueless c cs numeral hscan

/-! ### Places where a scan starts -/

/-- What is left of a text at each place where a scan starts, if the first `skip` characters belong to what
was scanned before. -/
def placesFrom : (skip : Nat) → List Char → List (List Char)
  | _, [] => []
  | skip + 1, _ :: cs => placesFrom skip cs
  | 0, c :: cs =>
      (c :: cs) ::
        match scan c cs with
        | .gap width => placesFrom (width - 1) cs
        | .token _ width => placesFrom (width - 1) cs
        | .fault _ _ => []
        | .valueless _ => []

/-- What is left of a text at each place to which cutting it comes. -/
def places (text : List Char) : List (List Char) :=
  placesFrom 0 text

theorem placesFrom_eq_drop (skip : Nat) (cs : List Char) :
    placesFrom skip cs = places (cs.drop skip) := by
  induction cs generalizing skip with
  | nil => cases skip <;> rfl
  | cons c cs ih =>
      cases skip with
      | zero => rfl
      | succ n => exact ih n

theorem places_gap {c : Char} {cs : List Char} {width : Nat} (h : scan c cs = .gap width) :
    places (c :: cs) = (c :: cs) :: places ((c :: cs).drop width) := by
  obtain ⟨n, rfl⟩ : ∃ n, width = n + 1 := ⟨width - 1, by have := scan_gap_width_pos h; omega⟩
  rw [places, placesFrom, h]
  exact congrArg _ (placesFrom_eq_drop n cs)

theorem places_token {c : Char} {cs : List Char} {kind : Kind} {width : Nat}
    (h : scan c cs = .token kind width) :
    places (c :: cs) = (c :: cs) :: places ((c :: cs).drop width) := by
  obtain ⟨n, rfl⟩ : ∃ n, width = n + 1 := ⟨width - 1, by have := scan_token_width_pos h; omega⟩
  rw [places, placesFrom, h]
  exact congrArg _ (placesFrom_eq_drop n cs)

theorem mem_places_self (c : Char) (cs : List Char) : c :: cs ∈ places (c :: cs) :=
  List.mem_cons_self

/-- A token other than the mark of the end was found by a scan of the text at its place. -/
theorem scan_of_mem_tokensFrom {loc : Location} {text : List Char} {tokens : List Token}
    (h : tokensFrom 0 loc text = .ok tokens) {t : Token} (ht : t ∈ tokens) (hkind : t.kind ≠ .eof) :
    ∃ before c cs width, text = before ++ c :: cs ∧ t.location = loc.after before ∧
      scan c cs = .token t.kind width := by
  induction text using cut_induction generalizing loc tokens with
  | nil =>
      obtain rfl := Except.ok.inj h
      obtain rfl := List.mem_singleton.mp ht
      exact absurd rfl hkind
  | gap c cs width hscan ih =>
      rw [tokensFrom_gap hscan] at h
      obtain ⟨before, d, ds, w, hdrop, hloc, hat⟩ := ih h ht
      refine ⟨(c :: cs).take width ++ before, d, ds, w, ?_, ?_, hat⟩
      · rw [List.append_assoc, ← hdrop, List.take_append_drop]
      · rw [hloc, Location.after_append]
  | token c cs kind width hscan ih =>
      obtain ⟨rest, rfl, hrest⟩ := exists_of_tokensFrom_token hscan h
      rcases List.mem_cons.mp ht with rfl | ht
      · exact ⟨[], c, cs, width, rfl, rfl, hscan⟩
      · obtain ⟨before, d, ds, w, hdrop, hloc, hat⟩ := ih hrest ht
        refine ⟨(c :: cs).take width ++ before, d, ds, w, ?_, ?_, hat⟩
        · rw [List.append_assoc, ← hdrop, List.take_append_drop]
        · rw [hloc, Location.after_append]
  | fault c cs cause before hscan =>
      simp [tokensFrom, hscan] at h
  | valueless c cs numeral hscan =>
      simp [tokensFrom, hscan] at h

theorem tokensFrom_of_tokenize {source : String} {file : Option String} {tokens : List Token}
    (h : tokenize source file = .ok tokens) :
    tokensFrom 0 (.start file) source.toList = .ok tokens := by
  rw [tokenize] at h
  cases htokens : tokensFrom 0 (Location.start file) source.toList with
  | error stop =>
      rw [htokens] at h
      cases h
  | ok ts =>
      rw [htokens] at h
      obtain rfl : ts = tokens := Except.ok.inj h
      rfl

/-! ### Words -/

theorem isPrefix_of_scanWord {cs : List Char} {kind : Kind} {width : Nat}
    (h : scanWord cs = .token kind width) :
    (∀ name, kind = .identifier name → name.toList <+: cs) ∧
      ∀ word, kind = .keyword word → word.spelling.toList <+: cs := by
  have hrun : (String.ofList (cs.takeWhile isNameChar)).toList <+: cs := by
    rw [String.toList_ofList]
    exact List.takeWhile_prefix isNameChar
  unfold scanWord at h
  dsimp only at h
  split at h
  · rename_i keyword hkeyword
    obtain ⟨rfl, -⟩ := Scan.token.inj h
    refine ⟨by simp, fun word hword => ?_⟩
    obtain rfl := Kind.keyword.inj hword
    have hspelling : keyword.spelling = String.ofList (cs.takeWhile isNameChar) := by
      simpa using List.find?_some hkeyword
    rw [hspelling]
    exact hrun
  · obtain ⟨rfl, -⟩ := Scan.token.inj h
    refine ⟨fun name hname => ?_, by simp⟩
    obtain rfl := Kind.identifier.inj hname
    exact hrun

/-- The kind of a token that is no word. -/
theorem scanMark_kind {c : Char} {cs : List Char} {kind : Kind} {width : Nat}
    (h : scanMark c cs = .token kind width) : ∃ m, kind = .mark m := by
  unfold scanMark at h
  split at h
  · obtain ⟨rfl, -⟩ := Scan.token.inj h
    exact ⟨_, rfl⟩
  · split at h
    · obtain ⟨rfl, -⟩ := Scan.token.inj h
      exact ⟨_, rfl⟩
    · cases h

theorem scanWord_kind {cs : List Char} {kind : Kind} {width : Nat}
    (h : scanWord cs = .token kind width) :
    (∃ word, kind = .keyword word) ∨ ∃ name, kind = .identifier name := by
  unfold scanWord at h
  dsimp only at h
  split at h
  · obtain ⟨rfl, -⟩ := Scan.token.inj h
    exact Or.inl ⟨_, rfl⟩
  · obtain ⟨rfl, -⟩ := Scan.token.inj h
    exact Or.inr ⟨_, rfl⟩

theorem scanNumeral_kind {cs : List Char} {kind : Kind} {width : Nat}
    (h : scanNumeral cs = .token kind width) : ∃ value, kind = .number value := by
  unfold scanNumeral at h
  dsimp only at h
  split at h
  · obtain ⟨rfl, -⟩ := Scan.token.inj h
    exact ⟨_, rfl⟩
  · cases h

theorem scanString_kind {quote : Char} {cs : List Char} {kind : Kind} {width : Nat}
    (h : scanString quote cs = .token kind width) : ∃ value, kind = .string value := by
  unfold scanString at h
  split at h
  · obtain ⟨rfl, -⟩ := Scan.token.inj h
    exact ⟨_, rfl⟩
  · cases h
  · cases h

theorem scanDoc_kind {cs : List Char} {kind : Kind} {width : Nat}
    (h : scanDoc cs = .token kind width) : ∃ text, kind = .doc text := by
  obtain ⟨rfl, -⟩ := Scan.token.inj h
  exact ⟨_, rfl⟩

/-- A name or a reserved word is written out at its place. -/
theorem isPrefix_of_scan {c : Char} {cs : List Char} {kind : Kind} {width : Nat}
    (h : scan c cs = .token kind width) :
    (∀ name, kind = .identifier name → name.toList <+: c :: cs) ∧
      ∀ word, kind = .keyword word → word.spelling.toList <+: c :: cs := by
  rcases scan_token_cases h with ⟨rest, -, -, h⟩ | ⟨-, h⟩ | ⟨-, h⟩ | ⟨-, h⟩ | h
  · obtain ⟨text, rfl⟩ := scanDoc_kind h
    simp
  · obtain ⟨value, rfl⟩ := scanString_kind h
    simp
  · obtain ⟨value, rfl⟩ := scanNumeral_kind h
    simp
  · exact isPrefix_of_scanWord h
  · obtain ⟨m, rfl⟩ := scanMark_kind h
    simp

/-! ### Numerals without a value -/

/-- The digits of the numeral at the front of a text. -/
def numeralDigits (cs : List Char) : List Char :=
  let wholeRun := cs.takeWhile isNumeralChar
  wholeRun.filter (· ≠ '_') ++ (fraction (cs.drop wholeRun.length)).filter (· ≠ '_')

theorem decimalValues?_eq_none_iff (cs : List Char) :
    decimalValues? cs = none ↔ ∃ d ∈ cs, isDecimal d = false := by
  unfold decimalValues?
  induction cs with
  | nil => simp
  | cons c cs ih =>
      rw [List.mapM_cons]
      cases hc : decimalValue? c with
      | none => simp [isDecimal, hc]
      | some value =>
          cases hrest : cs.mapM decimalValue? with
          | none =>
              have := ih.mp hrest
              simp [isDecimal, hc]
              simpa [isDecimal] using this
          | some values =>
              have hall : ¬∃ d ∈ cs, isDecimal d = false := fun h => by
                rw [ih.mpr h] at hrest
                cases hrest
              simp [isDecimal, hc]
              simpa [isDecimal] using hall

/-- A numeral has no value exactly if one of its digits is not decimal. -/
theorem scanNumeral_eq_valueless_iff (cs : List Char) :
    (∃ text, scanNumeral cs = .valueless text) ↔ ∃ d ∈ numeralDigits cs, isDecimal d = false := by
  rw [← decimalValues?_eq_none_iff]
  unfold scanNumeral numeralDigits
  dsimp only
  split
  · rename_i digits hdigits
    rw [hdigits]
    simp
  · rename_i hdigits
    rw [hdigits]
    simp

theorem scanString_ne_valueless {quote : Char} {cs text : List Char} :
    scanString quote cs ≠ .valueless text := by
  unfold scanString
  split <;> simp

theorem scanWord_ne_valueless {cs text : List Char} : scanWord cs ≠ .valueless text := by
  unfold scanWord
  dsimp only
  split <;> simp

theorem scanMark_ne_valueless {c : Char} {cs text : List Char} :
    scanMark c cs ≠ .valueless text := by
  unfold scanMark
  split
  · simp
  · split <;> simp

/-- A numeral starts with a digit, and nothing else does. -/
theorem scan_of_isDigit {c : Char} (h : isDigit c = true) (cs : List Char) :
    scan c cs = scanNumeral (c :: cs) := by
  have hne : ∀ d, isDigit d = false → c ≠ d := by
    rintro d hd rfl
    rw [h] at hd
    cases hd
  have hspace : isSpace c = false := by
    simp [isSpace, hne ' ' (by decide), hne '\t' (by decide), hne '\r' (by decide),
      hne '\n' (by decide)]
  have hslash := hne '/' (by decide)
  have hquote : c ≠ doubleQuote := hne _ (by decide)
  have hapostrophe : c ≠ apostrophe := hne _ (by decide)
  unfold scan
  rw [hspace]
  split
  · rename_i hfalse
    cases hfalse
  · split
    · exact absurd rfl hslash
    · exact absurd rfl hslash
    · exact absurd rfl hslash
    · simp [hquote, hapostrophe]

theorem scan_eq_valueless_iff (c : Char) (cs : List Char) :
    (∃ text, scan c cs = .valueless text) ↔
      isDigit c = true ∧ ∃ d ∈ numeralDigits (c :: cs), isDecimal d = false := by
  rw [← scanNumeral_eq_valueless_iff]
  constructor
  · rintro ⟨text, h⟩
    suffices hdigit : isDigit c = true from ⟨hdigit, text, by rwa [← scan_of_isDigit hdigit]⟩
    unfold scan at h
    split at h
    · cases h
    · split at h
      · cases h
      · cases h
      · split at h <;> cases h
      · split at h
        · exact absurd h scanString_ne_valueless
        · split at h
          · rename_i hdigit
            exact hdigit
          · split at h
            · exact absurd h scanWord_ne_valueless
            · exact absurd h scanMark_ne_valueless
  · rintro ⟨hdigit, text, h⟩
    exact ⟨text, by rw [scan_of_isDigit hdigit, h]⟩

/-- Cutting a text stops at a numeral without a value exactly if it comes to one. -/
theorem tokensFrom_eq_valueless_iff (loc : Location) (text : List Char) :
    (∃ numeral, tokensFrom 0 loc text = .error (.valueless numeral)) ↔
      ∃ c cs, c :: cs ∈ places text ∧ ∃ numeral, scan c cs = .valueless numeral := by
  -- a place where something else stands can be left out
  have hskip : ∀ {c : Char} {cs : List Char} {rest : List (List Char)},
      (∀ numeral, scan c cs ≠ .valueless numeral) →
      ((∃ d ds, d :: ds ∈ (c :: cs) :: rest ∧ ∃ numeral, scan d ds = .valueless numeral) ↔
        ∃ d ds, d :: ds ∈ rest ∧ ∃ numeral, scan d ds = .valueless numeral) := by
    intro c cs rest hother
    constructor
    · rintro ⟨d, ds, hmem, numeral, hat⟩
      rcases List.mem_cons.mp hmem with hhere | hmem
      · obtain ⟨rfl, rfl⟩ := List.cons.inj hhere
        exact absurd hat (hother numeral)
      · exact ⟨d, ds, hmem, numeral, hat⟩
    · rintro ⟨d, ds, hmem, hat⟩
      exact ⟨d, ds, List.mem_cons_of_mem _ hmem, hat⟩
  induction text using cut_induction generalizing loc with
  | nil => simp [tokensFrom, places, placesFrom]
  | gap c cs width hscan ih =>
      rw [tokensFrom_gap hscan, places_gap hscan, hskip (by simp [hscan])]
      exact ih _
  | token c cs kind width hscan ih =>
      have hrest := ih (loc.after ((c :: cs).take width))
      rw [places_token hscan, hskip (by simp [hscan]), tokensFrom_token hscan]
      refine Iff.trans ?_ hrest
      cases tokensFrom 0 (loc.after ((c :: cs).take width)) ((c :: cs).drop width) with
      | ok rest =>
          constructor <;>
            · rintro ⟨numeral, h⟩
              cases h
      | error stop =>
          constructor <;>
            · rintro ⟨numeral, h⟩
              obtain rfl : stop = .valueless numeral := Except.error.inj h
              exact ⟨numeral, rfl⟩
  | fault c cs cause before hscan => simp [tokensFrom, places, placesFrom, hscan]
  | valueless c cs numeral hscan =>
      constructor
      · intro _
        exact ⟨c, cs, mem_places_self c cs, numeral, hscan⟩
      · intro _
        exact ⟨numeral, by simp [tokensFrom, hscan]⟩

end ScriptLens.Token
