import ScriptLens.Proofs.Layout.DocComments
import ScriptLens.Proofs.Syntax.Relocation

/-!
# Joining texts

A scan that ends with its text does not look past a line feed behind it, except that a documentation comment
looks for documentation on the next line.  So a text with a line feed and another text behind it has the tokens
of both, those of the second at the places where it stands now.

Main statements: `tokensFrom_append_feed`, `tokensFrom_moved` and `tokenize_joined`.
-/

namespace ScriptLens.Location

/-- The location that many lines and characters further on, at the same column. -/
def moved (lines offset : Int) (loc : Location) : Location :=
  { loc with line := loc.line + lines, offset := loc.offset + offset }

/-- Moving goes along with every character. -/
theorem moved_next (lines offset : Int) (loc : Location) (c : Char) :
    (loc.next c).moved lines offset = (loc.moved lines offset).next c := by
  unfold next
  split
  · simp only [moved, mk.injEq, and_true, true_and]
    omega
  · simp only [moved, mk.injEq, and_true, true_and]
    omega

/-- The place on the line below a text. -/
theorem after_feed (file : Option String) (text : List Char) :
    (start file).after (text ++ ['\n']) = (start file).moved (text.count '\n' + 1) (text.length + 1) := by
  have hline := line_after (start file) text
  have hoffset := offset_after (start file) text
  have hfile := file_after (start file) text
  simp only [after_append, after_cons, after_nil, next, if_true, moved, mk.injEq, hfile, hline, hoffset]
  refine ⟨by omega, rfl, by omega, trivial⟩

/-- The place behind a text and a semicolon on a line of its own. -/
theorem after_joint (file : Option String) (text : List Char) :
    (start file).after (text ++ ['\n', ';', '\n']) =
      (start file).moved (text.count '\n' + 2) (text.length + 3) := by
  have hcut : text ++ ['\n', ';', '\n'] = (text ++ ['\n', ';']) ++ ['\n'] := by simp
  have hcount : (text ++ ['\n', ';']).count '\n' = text.count '\n' + 1 := by simp
  have hlength : (text ++ ['\n', ';']).length = text.length + 2 := by simp
  rw [hcut, after_feed, hcount, hlength]
  congr 1

end ScriptLens.Location

namespace ScriptLens.Token

open Text

/-! ### Widths -/

/-- Some of the first lines of a text are no longer than the text. -/
theorem length_unlines_takeWhile_le (p : List Char → Bool) (ls : List (List Char)) :
    (unlines (ls.takeWhile p)).length ≤ (unlines ls).length := by
  induction ls with
  | nil => simp
  | cons line rest ih =>
      cases hp : p line with
      | false => simp [hp]
      | true =>
          rw [List.takeWhile_cons_of_pos hp]
          cases rest with
          | nil => simp
          | cons below more =>
              rw [unlines_cons line (List.cons_ne_nil below more)]
              by_cases hblock : (below :: more).takeWhile p = []
              · rw [hblock]
                simp
              · rw [unlines_cons line hblock]
                simpa using ih

theorem docWidth_le (text : List Char) : docWidth text ≤ text.length := by
  have hlines := length_unlines_takeWhile_le (fun line => (docText? line).isSome) (lines text)
  rwa [unlines_lines] at hlines

theorem blockCommentWidth?_le {cs : List Char} {width : Nat} (h : blockCommentWidth? cs = some width) :
    width ≤ cs.length := by
  fun_induction blockCommentWidth? cs generalizing width with
  | case1 => cases h
  | case2 rest =>
      obtain rfl := Option.some.inj h
      simp
  | case3 c cs hother ih =>
      obtain ⟨inner, hinner, rfl⟩ := Option.map_eq_some_iff.mp h
      simpa using ih hinner

/-- A token does not reach past the end of its text. -/
theorem scan_token_width_le {c : Char} {cs : List Char} {kind : Kind} {width : Nat}
    (h : scan c cs = .token kind width) : width ≤ (c :: cs).length := by
  rcases scan_token_cases h with ⟨rest, -, -, h⟩ | ⟨-, h⟩ | ⟨-, h⟩ | ⟨-, h⟩ | h
  · rw [← (Scan.token.inj h).2]
    exact docWidth_le _
  · unfold scanString at h
    split at h
    · rename_i text inner hbody
      obtain ⟨body, rest, rfl, rfl, -⟩ := stringBody_append hbody
      rw [← (Scan.token.inj h).2]
      simp
    · cases h
    · cases h
  · obtain ⟨run, rest, hcut, hrun, hrest⟩ := exists_run isNumeralChar (c :: cs)
    rw [hcut] at h ⊢
    rw [scanNumeral_width hrun hrest h]
    by_cases hfraction : fraction rest = []
    · simp [hfraction]
    · obtain ⟨d, digits, behind, rfl, -, heq, -⟩ := exists_fraction hfraction
      simp [heq]
  · obtain ⟨run, rest, hcut, hrun, hrest⟩ := exists_run isNameChar (c :: cs)
    rw [hcut] at h ⊢
    rw [scanWord_width hrun hrest h]
    simp
  · unfold scanMark at h
    split at h
    · rename_i mark hmark
      rw [← (Scan.token.inj h).2]
      cases cs with
      | nil => cases hmark
      | cons d ds => simp
    · split at h
      · rw [← (Scan.token.inj h).2]
        simp
      · cases h

theorem scan_gap_width_le {c : Char} {cs : List Char} {width : Nat} (h : scan c cs = .gap width) :
    width ≤ (c :: cs).length := by
  rcases scan_gap_cases h with ⟨-, rfl⟩ | ⟨rest, -, rfl, -, rfl⟩ | ⟨rest, inner, -, rfl, hinner, rfl⟩
  · simp
  · have := (List.takeWhile_prefix (l := rest) (· ≠ '\n')).length_le
    simpa [lineWidth] using this
  · simpa using blockCommentWidth?_le hinner

/-! ### A line feed behind a text -/

theorem takeWhile_append_feed {p : Char → Bool} (h : p '\n' = false) (cs rest : List Char) :
    (cs ++ '\n' :: rest).takeWhile p = cs.takeWhile p :=
  takeWhile_append_of_head cs (by simpa using h)

theorem fraction_append_feed (cs rest : List Char) : fraction (cs ++ '\n' :: rest) = fraction cs := by
  have hfeed : isDigit '\n' = false := by decide
  fun_cases fraction cs with
  | case1 c cs hdigit =>
      rw [List.cons_append, List.cons_append, fraction, if_pos hdigit, ← List.cons_append,
        takeWhile_append_feed (by decide)]
  | case2 c cs hdigit => rw [List.cons_append, List.cons_append, fraction, if_neg hdigit]
  | case3 cs hother =>
      cases cs with
      | nil => simp [fraction]
      | cons c cs =>
          by_cases hc : c = '.'
          · subst hc
            cases cs with
            | nil => simp [fraction, hfeed]
            | cons d ds => exact absurd rfl (hother d ds)
          · rw [List.cons_append, fraction]
            rintro d ds h
            exact hc (List.cons.inj h).1

theorem scanNumeral_append_feed (cs rest : List Char) :
    scanNumeral (cs ++ '\n' :: rest) = scanNumeral cs := by
  have hlength : (cs.takeWhile isNumeralChar).length ≤ cs.length :=
    (List.takeWhile_prefix isNumeralChar).length_le
  rw [scanNumeral, scanNumeral, takeWhile_append_feed (by decide), List.drop_append_of_le_length hlength,
    fraction_append_feed]

theorem scanWord_append_feed (cs rest : List Char) : scanWord (cs ++ '\n' :: rest) = scanWord cs := by
  rw [scanWord, scanWord, takeWhile_append_feed (by decide)]

theorem scanMark_append_feed (c : Char) (cs rest : List Char) :
    scanMark c (cs ++ '\n' :: rest) = scanMark c cs := by
  have hhead : (cs ++ '\n' :: rest).head?.bind (pairMark? c) = cs.head?.bind (pairMark? c) := by
    cases cs with
    | nil => simp [pairMark?]
    | cons d ds => rfl
  rw [scanMark, scanMark, hhead]

theorem scanString_append {quote : Char} {cs : List Char} {kind : Kind} {width : Nat}
    (h : scanString quote cs = .token kind width) (rest : List Char) :
    scanString quote (cs ++ rest) = .token kind width := by
  unfold scanString at h
  split at h
  · rename_i text inner hbody
    obtain ⟨body, behind, rfl, -, -, -, happend⟩ := stringBody_append hbody
    rw [scanString, List.append_assoc, happend]
    exact h
  · cases h
  · cases h

theorem blockCommentWidth?_append_right {cs : List Char} {width : Nat}
    (h : blockCommentWidth? cs = some width) (rest : List Char) :
    blockCommentWidth? (cs ++ rest) = some width := by
  fun_induction blockCommentWidth? cs generalizing width with
  | case1 => cases h
  | case2 cs => exact h
  | case3 c cs hother ih =>
      obtain ⟨inner, hinner, rfl⟩ := Option.map_eq_some_iff.mp h
      have hcons : c = '*' → (cs ++ rest).head? ≠ some '/' := by
        rintro rfl hhead
        cases cs with
        | nil => cases hinner
        | cons d ds =>
            obtain rfl := Option.some.inj hhead
            exact hother ds rfl rfl
      rw [List.cons_append, Layout.blockCommentWidth?_cons hcons, ih hinner]
      rfl

/-- A block of documentation lines that ends with its text ends before a line that is no documentation. -/
theorem docBlock_append_feed {rest : List Char} (h : docBlock rest = []) (text : List Char) :
    docBlock (text ++ '\n' :: rest) = docBlock text := by
  rw [docBlock, lines_feed]
  apply takeWhile_append_of_head
  intro line hline
  obtain ⟨below, hlines⟩ := List.head?_eq_some_iff.mp hline
  rw [docBlock, hlines, List.takeWhile_cons] at h
  cases hdoc : (docText? line).isSome with
  | false => rfl
  | true => simp [hdoc] at h

theorem scanDoc_append_feed {rest : List Char} (h : docBlock rest = []) (text : List Char) :
    scanDoc (text ++ '\n' :: rest) = scanDoc text := by
  rw [scanDoc_eq, scanDoc_eq, docTexts, docWidth, docBlock_append_feed h]
  rfl

/-- A token that ends with its text is the same token before a line feed. -/
theorem scan_token_append_feed {rest : List Char} (hrest : docBlock rest = []) {c : Char}
    {cs : List Char} {kind : Kind} {width : Nat} (h : scan c cs = .token kind width) :
    scan c (cs ++ '\n' :: rest) = .token kind width := by
  by_cases hc : c = '/'
  · subst hc
    cases cs with
    | nil =>
        rw [← h]
        rfl
    | cons d ds =>
        by_cases hslash : d = '/'
        · subst hslash
          by_cases hdoc : ds.head? = some '/'
          · obtain ⟨said, rfl⟩ := List.head?_eq_some_iff.mp hdoc
            rw [← h]
            exact scanDoc_append_feed hrest ('/' :: '/' :: '/' :: said)
          · rw [scan_line hdoc] at h
            cases h
        · by_cases hstar : d = '*'
          · subst hstar
            rw [scan_star] at h
            cases hbody : blockCommentWidth? ds <;> simp [hbody] at h
          · have hhead : ∀ e, e = '/' ∨ e = '*' → (d :: ds).head? ≠ some e := by
              rintro e he heq
              obtain rfl := Option.some.inj heq
              exact he.elim hslash hstar
            rw [scan_slash (hhead _ (Or.inl rfl)) (hhead _ (Or.inr rfl))] at h
            rw [← h]
            exact scan_slash (hhead _ (Or.inl rfl)) (hhead _ (Or.inr rfl))
  · rw [scan_of_ne_slash hc] at h ⊢
    rw [← List.cons_append, scanNumeral_append_feed, scanWord_append_feed, scanMark_append_feed]
    split at h
    · cases h
    · split at h
      · rename_i hspace hquote
        rw [if_neg hspace, if_pos hquote, scanString_append h]
      · rename_i hspace hquote
        rw [if_neg hspace, if_neg hquote, h]

theorem scan_gap_append_feed {c : Char} {cs : List Char} {width : Nat} (h : scan c cs = .gap width)
    (rest : List Char) : scan c (cs ++ '\n' :: rest) = .gap width := by
  rcases scan_gap_cases h with
    ⟨hspace, rfl⟩ | ⟨line, rfl, rfl, hline, rfl⟩ | ⟨body, inner, rfl, rfl, hinner, rfl⟩
  · unfold scan
    rw [if_pos hspace]
  · have hhead : (line ++ '\n' :: rest).head? ≠ some '/' := by
      cases line with
      | nil => simp
      | cons d ds => exact hline
    rw [List.cons_append, scan_line hhead, lineWidth, takeWhile_append_feed (by decide)]
    rfl
  · rw [List.cons_append, scan_star, blockCommentWidth?_append_right hinner]
    rfl

/-- A text with a line feed behind it has its tokens, and then those of what follows. -/
theorem tokensFrom_append_feed {rest : List Char} (hrest : docBlock rest = []) {loc : Location}
    {text : List Char} {tokens : List Token} (h : tokensFrom 0 loc text = .ok tokens) :
    ∃ init, tokens = init ++ [⟨.eof, loc.after text⟩] ∧
      tokensFrom 0 loc (text ++ '\n' :: rest) =
        (init ++ ·) <$> tokensFrom 0 (loc.after text) ('\n' :: rest) := by
  have hdrop : ∀ {c : Char} {cs : List Char} {width : Nat}, width ≤ (c :: cs).length →
      (c :: (cs ++ '\n' :: rest)).take width = (c :: cs).take width ∧
        (c :: (cs ++ '\n' :: rest)).drop width = (c :: cs).drop width ++ '\n' :: rest := by
    intro c cs width hwidth
    rw [← List.cons_append]
    exact ⟨List.take_append_of_le_length hwidth, List.drop_append_of_le_length hwidth⟩
  have hafter : ∀ (loc : Location) (c : Char) (cs : List Char) (width : Nat),
      (loc.after ((c :: cs).take width)).after ((c :: cs).drop width) = loc.after (c :: cs) := by
    intro loc c cs width
    rw [← Location.after_append, List.take_append_drop]
  induction text using cut_induction generalizing loc tokens with
  | nil =>
      obtain rfl := Except.ok.inj h
      exact ⟨[], rfl, by simp⟩
  | gap c cs width hscan ih =>
      obtain ⟨htake, hcut⟩ := hdrop (scan_gap_width_le hscan)
      rw [tokensFrom_gap hscan] at h
      obtain ⟨init, rfl, htokens⟩ := ih h
      rw [hafter] at htokens
      refine ⟨init, by rw [hafter], ?_⟩
      rw [List.cons_append, tokensFrom_gap (scan_gap_append_feed hscan rest), htake, hcut, htokens]
  | token c cs kind width hscan ih =>
      obtain ⟨htake, hcut⟩ := hdrop (scan_token_width_le hscan)
      obtain ⟨behind, rfl, hbehind⟩ := exists_of_tokensFrom_token hscan h
      obtain ⟨init, rfl, htokens⟩ := ih hbehind
      rw [hafter] at htokens
      refine ⟨⟨kind, loc⟩ :: init, by rw [hafter]; rfl, ?_⟩
      rw [List.cons_append, tokensFrom_token (scan_token_append_feed hrest hscan), htake, hcut, htokens]
      cases tokensFrom 0 (loc.after (c :: cs)) ('\n' :: rest) <;> rfl
  | fault c cs cause before hscan => simp [tokensFrom, hscan] at h
  | valueless c cs numeral hscan => simp [tokensFrom, hscan] at h

/-! ### Another place -/

/-- A text that stands further on has its tokens further on. -/
theorem tokensFrom_moved (lines offset : Int) {skip : Nat} {loc : Location} {text : List Char}
    {tokens : List Token} (h : tokensFrom skip loc text = .ok tokens) :
    tokensFrom skip (loc.moved lines offset) text =
      .ok (tokens.map (Token.relocate (Location.moved lines offset))) := by
  fun_induction tokensFrom skip loc text generalizing tokens with
  | case1 skip loc =>
      obtain rfl := Except.ok.inj h
      cases skip <;> rfl
  | case2 loc skip c cs ih =>
      rw [tokensFrom, ← Location.moved_next]
      exact ih h
  | case3 loc c cs width hscan ih =>
      rw [tokensFrom, hscan, ← Location.moved_next]
      exact ih h
  | case4 loc c cs kind width hscan ih =>
      rw [tokensFrom, hscan, ← Location.moved_next]
      cases hrest : tokensFrom (width - 1) (loc.next c) cs with
      | error stop =>
          rw [hrest] at h
          cases h
      | ok rest =>
          rw [hrest] at h
          obtain rfl : ⟨kind, loc⟩ :: rest = tokens := Except.ok.inj h
          dsimp only
          rw [ih hrest]
          rfl
  | case5 => cases h
  | case6 => cases h

/-! ### Two texts -/

/-- A semicolon on a line of its own is passed over but for itself. -/
theorem tokensFrom_joint (loc : Location) (cs : List Char) :
    tokensFrom 0 loc ('\n' :: ';' :: '\n' :: cs) =
      (⟨.mark .semicolon, loc.next '\n'⟩ :: ·) <$> tokensFrom 0 (loc.after ['\n', ';', '\n']) cs := by
  have hfeed : ∀ ds, scan '\n' ds = .gap 1 := fun ds => by simp [scan, isSpace]
  have hmark : scan ';' ('\n' :: cs) = .token (.mark .semicolon) 1 := rfl
  rw [tokensFrom_gap (hfeed _), List.drop_one, List.tail_cons, tokensFrom_token hmark, List.drop_one,
    List.tail_cons, tokensFrom_gap (hfeed _)]
  rfl

/-- Two texts with a semicolon on a line of its own between them have the tokens of both, the second further
on. -/
theorem tokenize_joined {a b : String} {file : Option String} {tokens others : List Token}
    (ha : tokenize a file = .ok tokens) (hb : tokenize b file = .ok others) :
    ∃ init semicolon, tokens = init ++ [⟨.eof, (Location.start file).after a.toList⟩] ∧
      semicolon.kind = .mark .semicolon ∧
      tokenize (a ++ "\n;\n" ++ b) file = .ok (init ++ semicolon ::
        others.map (Token.relocate (Location.moved (a.toList.count '\n' + 2) (a.length + 3)))) := by
  have hrest : docBlock (';' :: '\n' :: b.toList) = [] := by
    rw [docBlock, ← List.singleton_append, lines_append_feed (by decide)]
    rfl
  obtain ⟨init, htokens, hjoined⟩ := tokensFrom_append_feed hrest (tokensFrom_of_tokenize ha)
  have hsplit : (a ++ "\n;\n" ++ b).toList = a.toList ++ '\n' :: ';' :: '\n' :: b.toList := by
    simp
  have hbehind := tokensFrom_moved (a.toList.count '\n' + 2) (a.toList.length + 3)
    (tokensFrom_of_tokenize hb)
  rw [← Location.after_joint, Location.after_append, String.length_toList] at hbehind
  refine ⟨init, ⟨.mark .semicolon, ((Location.start file).after a.toList).next '\n'⟩, htokens, rfl, ?_⟩
  rw [tokenize, hsplit, hjoined, tokensFrom_joint, hbehind]
  rfl

end ScriptLens.Token
