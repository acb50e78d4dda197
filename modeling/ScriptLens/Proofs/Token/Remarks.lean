import ScriptLens.Proofs.Token.Joining

/-!
# Documentation lines right below each other

Each documentation line makes the scan look at the next line, and it goes on only if that is one as well.  So lines
right below each other are one token, and looking past the last of them leaves no trace: the text below them has the
tokens that it has by itself, as many lines further down.

Main statements: `tokensFrom_remarks` and `tokenize_remarks`.
-/

namespace ScriptLens.Token

open Text

/-- A documentation line as it is written: blanks, three slashes and a space, and what the line says. -/
structure Remark where
  indent : List Char
  said : List Char
  blank : ∀ c ∈ indent, isIndent c = true
  unbroken : '\n' ∉ said

namespace Remark

/-- The line behind its indentation. -/
def body (r : Remark) : List Char :=
  '/' :: '/' :: '/' :: ' ' :: r.said

/-- The whole line. -/
def line (r : Remark) : List Char :=
  r.indent ++ r.body

/-- Lines right below each other, with a line feed behind each. -/
def text (remarks : List Remark) : List Char :=
  remarks.flatMap fun r => r.line ++ ['\n']

/-- What the lines say, without the blanks at their ends. -/
def value (remarks : List Remark) : List Char :=
  unlines (remarks.map fun r => trimRight r.said)

theorem feed_not_mem_body (r : Remark) : '\n' ∉ r.body := by
  simp [body, r.unbroken]

theorem feed_not_mem_indent (r : Remark) : '\n' ∉ r.indent :=
  fun hmem => absurd (r.blank _ hmem) (by decide)

theorem feed_not_mem_line (r : Remark) : '\n' ∉ r.line := by
  simp [line, r.feed_not_mem_indent, r.feed_not_mem_body]

theorem docText?_body (r : Remark) : docText? r.body = some (' ' :: r.said) := rfl

theorem docText?_line (r : Remark) : docText? r.line = some (' ' :: r.said) := by
  rw [line, docText?_indent r.blank, r.docText?_body]

/-- A line feed stands behind the last line, the others between the lines. -/
theorem text_eq (first : Remark) (rest : List Remark) :
    text (first :: rest) = unlines (first.line :: rest.map line) ++ ['\n'] := by
  induction rest generalizing first with
  | nil => simp [text]
  | cons second rest ih =>
      have hcons : text (first :: second :: rest) = first.line ++ '\n' :: text (second :: rest) := by
        simp [text]
      rw [hcons, ih second, List.map_cons, unlines_cons_cons, List.append_assoc]
      rfl

/-- The indentation of the first line stands in front of the lines. -/
theorem unlines_line (first : Remark) (lines : List (List Char)) :
    unlines (first.line :: lines) = first.indent ++ unlines (first.body :: lines) := by
  cases lines <;> simp [line]

/-- The lines have a line feed each. -/
theorem count_text (first : Remark) (rest : List Remark) :
    (unlines (first.line :: rest.map line)).count '\n' + 1 = (first :: rest).length := by
  have hfeed : ∀ l ∈ first.line :: rest.map line, '\n' ∉ l := by
    intro l hl
    rcases List.mem_cons.mp hl with rfl | hl
    · exact first.feed_not_mem_line
    · obtain ⟨r, -, rfl⟩ := List.mem_map.mp hl
      exact r.feed_not_mem_line
  rw [← length_lines, lines_unlines (List.cons_ne_nil _ _) hfeed]
  simp

/-- Below the lines, a place is as many lines further down. -/
theorem after_text (file : Option String) (first : Remark) (rest : List Remark) :
    (Location.start file).after (text (first :: rest)) =
      (Location.start file).moved (first :: rest).length (text (first :: rest)).length := by
  rw [text_eq, Location.after_feed, ← count_text, List.length_append]
  rfl

end Remark

/-! ### One token -/

/-- Documentation lines belong to the block of the documentation right above them. -/
theorem docBlock_remarks (line : List Char) (hfeed : '\n' ∉ line) (hdoc : (docText? line).isSome = true)
    (rest : List Remark) :
    docBlock (unlines (line :: rest.map Remark.line)) = line :: rest.map Remark.line := by
  induction rest generalizing line with
  | nil => simpa using docBlock_line hfeed hdoc
  | cons second rest ih =>
      have hsecond : (docText? second.line).isSome = true := by
        rw [second.docText?_line]
        rfl
      rw [List.map_cons, unlines_cons_cons, docBlock_feed hfeed hdoc,
        ih second.line second.feed_not_mem_line hsecond]

/-- Lines right below each other are one block, from the first slash on. -/
theorem docBlock_body (first : Remark) (rest : List Remark) :
    docBlock (unlines (first.body :: rest.map Remark.line)) = first.body :: rest.map Remark.line :=
  docBlock_remarks first.body first.feed_not_mem_body rfl rest

/-- What the lines say is what the block of them says. -/
theorem docTexts_remarks (first : Remark) (rest : List Remark) :
    docTexts (unlines (first.body :: rest.map Remark.line)) =
      (first :: rest).map fun r => trimRight r.said := by
  have hlines : (rest.map Remark.line).filterMap docText? = rest.map fun r => ' ' :: r.said := by
    rw [List.filterMap_map, ← List.filterMap_eq_map]
    apply congrArg (List.filterMap · rest)
    funext r
    exact r.docText?_line
  rw [docTexts, docBlock_body, List.filterMap_cons, first.docText?_body, hlines]
  simp [docLine]

/-- Documentation lines right below each other are one token, which stands at the first slash. -/
theorem tokensFrom_remarks (loc : Location) (first : Remark) (rest : List Remark) :
    tokensFrom 0 loc (unlines (first.line :: rest.map Remark.line)) =
      .ok [⟨.doc (String.ofList (Remark.value (first :: rest))), loc.after first.indent⟩,
        ⟨.eof, loc.after (unlines (first.line :: rest.map Remark.line))⟩] := by
  have hspace : ∀ d ∈ first.indent, isSpace d = true := by
    intro d hd
    exact isSpace_of_isIndent (first.blank d hd)
  have hslashes : ∃ said, unlines (first.body :: rest.map Remark.line) = '/' :: '/' :: '/' :: said := by
    cases rest with
    | nil => exact ⟨' ' :: first.said, unlines_singleton _⟩
    | cons second rest => exact ⟨_, unlines_cons_cons _ _ _⟩
  have htexts := docTexts_remarks first rest
  have hblock := docBlock_body first rest
  rw [Remark.unlines_line, tokensFrom_spaces hspace, Location.after_append]
  generalize hbody : unlines (first.body :: rest.map Remark.line) = body at *
  obtain ⟨said, rfl⟩ := hslashes
  have hscan : scan '/' ('/' :: '/' :: said) =
      .token (.doc (String.ofList (Remark.value (first :: rest)))) ('/' :: '/' :: '/' :: said).length := by
    have hwidth : docWidth ('/' :: '/' :: '/' :: said) = ('/' :: '/' :: '/' :: said).length := by
      rw [docWidth, hblock, hbody]
    calc scan '/' ('/' :: '/' :: said) = scanDoc ('/' :: '/' :: '/' :: said) := rfl
      _ = _ := by rw [scanDoc_eq, htexts, hwidth, Remark.value]
  rw [tokensFrom_token hscan, List.take_length, List.drop_length, tokensFrom]
  rfl

/-- A text that does not start with documentation does not go on with the lines above it. -/
theorem docBlock_eq_nil {text : List Char} (h : ¬['/', '/', '/'] <+: text.dropWhile isIndent) :
    docBlock text = [] := by
  obtain ⟨line, more, hlines⟩ := List.exists_cons_of_ne_nil (lines_ne_nil text)
  have htext : ∃ rest, text = line ++ rest := by
    rw [← unlines_lines text, hlines]
    cases more with
    | nil => exact ⟨[], by simp⟩
    | cons below more => exact ⟨'\n' :: unlines (below :: more), by simp⟩
  obtain ⟨rest, rfl⟩ := htext
  have hnone : docText? line = none := by
    unfold docText?
    split
    · rename_i said hsaid
      exfalso
      apply h
      have hdrop : line.dropWhile isIndent = '/' :: '/' :: '/' :: said := hsaid
      rw [List.dropWhile_append, hdrop]
      exact List.prefix_append ['/', '/', '/'] (said ++ rest)
    · rfl
  rw [docBlock, hlines, List.takeWhile_cons, hnone]
  rfl

/-- Documentation lines above a text that starts with none are one token, which stands at the first slash and says
what they say without the blanks at their ends.  The tokens of the text follow, as many lines further down, each at the
column that it had. -/
theorem tokenize_remarks (first : Remark) (rest : List Remark) {text : String} {file : Option String}
    {tokens : List Token} (h : tokenize text file = .ok tokens)
    (hbelow : ¬['/', '/', '/'] <+: text.toList.dropWhile isIndent) :
    tokenize (String.ofList (Remark.text (first :: rest)) ++ text) file =
      .ok (⟨.doc (String.ofList (Remark.value (first :: rest))),
          ⟨1, first.indent.length + 1, first.indent.length, file⟩⟩ ::
        tokens.map (Token.relocate
          (Location.moved (first :: rest).length (Remark.text (first :: rest)).length))) := by
  have hindent := Location.after_start_of_not_mem file first.feed_not_mem_indent
  have htext : (String.ofList (Remark.text (first :: rest)) ++ text).toList =
      unlines (first.line :: rest.map Remark.line) ++ '\n' :: text.toList := by
    rw [String.toList_append, String.toList_ofList, Remark.text_eq, List.append_assoc]
    rfl
  have hfeed : ∀ d ∈ ['\n'], isSpace d = true := by simp [isSpace]
  have hbehind : tokensFrom 0 ((Location.start file).after (unlines (first.line :: rest.map Remark.line)))
      ('\n' :: text.toList) = .ok (tokens.map (Token.relocate
        (Location.moved (first :: rest).length (Remark.text (first :: rest)).length))) := by
    rw [← tokensFrom_moved _ _ (tokensFrom_of_tokenize h), ← Remark.after_text, Remark.text_eq,
      Location.after_append]
    exact tokensFrom_spaces hfeed _ text.toList
  obtain ⟨init, hinit, htokens⟩ :=
    tokensFrom_append_feed (docBlock_eq_nil hbelow) (tokensFrom_remarks (.start file) first rest)
  obtain rfl : init = [_] := by simpa using (congrArg List.dropLast hinit).symm
  rw [tokenize, htext, htokens, hbehind, hindent]
  rfl

/-- Two documentation lines above a blank line, below which there is another: it is a token of its own. -/
theorem tokenize_remarks_above_blank_line :
    tokenize "\n/// c\nx" none =
      .ok [⟨.doc "c", ⟨2, 1, 1, none⟩⟩, ⟨.identifier "x", ⟨3, 1, 7, none⟩⟩, ⟨.eof, ⟨3, 2, 8, none⟩⟩] ∧
    ¬['/', '/', '/'] <+: "\n/// c\nx".toList.dropWhile isIndent ∧
    tokenize "\t/// a \r\n///  b\n\n/// c\nx" none =
      .ok [⟨.doc "a\n b", ⟨1, 2, 1, none⟩⟩, ⟨.doc "c", ⟨4, 1, 17, none⟩⟩,
        ⟨.identifier "x", ⟨5, 1, 23, none⟩⟩, ⟨.eof, ⟨5, 2, 24, none⟩⟩] := by
  have hbelow : tokenize "\n/// c\nx" none =
      .ok [⟨.doc "c", ⟨2, 1, 1, none⟩⟩, ⟨.identifier "x", ⟨3, 1, 7, none⟩⟩, ⟨.eof, ⟨3, 2, 8, none⟩⟩] := by
    decide +kernel
  have hplain : ¬['/', '/', '/'] <+: "\n/// c\nx".toList.dropWhile isIndent := by
    decide
  have htokens := tokenize_remarks ⟨['\t'], ['a', ' ', '\r'], by simp [isIndent], by decide⟩
    [⟨[], [' ', 'b'], by simp, by decide⟩] hbelow hplain
  refine ⟨hbelow, hplain, htokens.trans ?_⟩
  decide

end ScriptLens.Token
