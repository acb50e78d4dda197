import ScriptLens.Proofs.Token.Fronts

/-!
# Writing string literals

A string literal can have any value.  What would end the literal or its line, and what would be taken for an
escape, is written as an escape; everything else stands for itself.  A literal that is written so is read back as
its value, whatever stands behind it.

Main statement: `tokenize_literal`.
-/

namespace ScriptLens.Token

open Text

/-- The quotes that a string literal can stand between. -/
inductive Quote where
  | double
  | single
deriving DecidableEq, Repr

/-- The character of a quote. -/
def Quote.char : Quote → Char
  | .double => doubleQuote
  | .single => apostrophe

/-- The characters whose escape has a letter of its own, each with this letter. -/
def lettered : List (Char × Char) :=
  [('\n', 'n'), ('\t', 't'), ('\r', 'r'), ('\x00', '0')]

/-- What stands behind the backslash of the escape for a character.  A character that is no danger to a literal
between the given quotes has no escape. -/
def escapeLetter? (quote : Quote) (c : Char) : Option Char :=
  if c = '\\' ∨ c = quote.char then some c
  else (lettered.find? fun entry => entry.1 = c).map Prod.snd

/-- A character of a value, as a literal writes it. -/
def writtenChar (quote : Quote) (c : Char) : List Char :=
  match escapeLetter? quote c with
  | some letter => ['\\', letter]
  | none => [c]

/-- A value, as a literal writes it between its quotes. -/
def written (quote : Quote) (value : List Char) : List Char :=
  value.flatMap (writtenChar quote)

/-- The string literal that writes a value. -/
def literal (quote : Quote) (value : String) : String :=
  String.ofList (quote.char :: (written quote value.toList ++ [quote.char]))

/-! ### Characters -/

theorem Quote.char_ne_backslash (quote : Quote) : quote.char ≠ '\\' := by
  cases quote <;> decide

theorem Quote.char_ne_feed (quote : Quote) : quote.char ≠ '\n' := by
  cases quote <;> decide

theorem escaped?_of_mem_lettered : ∀ entry ∈ lettered, escaped? entry.2 = some entry.1 := by
  simp [lettered, escaped?]

/-- The escape of a character stands for that character. -/
theorem escaped?_of_escapeLetter? {quote : Quote} {c letter : Char}
    (h : escapeLetter? quote c = some letter) : escaped? letter = some c := by
  unfold escapeLetter? at h
  split at h
  · rename_i hself
    obtain rfl := Option.some.inj h
    rcases hself with rfl | rfl
    · rfl
    · cases quote <;> rfl
  · obtain ⟨entry, hentry, rfl⟩ := Option.map_eq_some_iff.mp h
    obtain rfl : entry.1 = c := by simpa using List.find?_some hentry
    exact escaped?_of_mem_lettered entry (List.mem_of_find?_eq_some hentry)

/-- A character without an escape neither starts one nor ends the literal or its line. -/
theorem plain_of_escapeLetter? {quote : Quote} {c : Char} (h : escapeLetter? quote c = none) :
    c ≠ '\\' ∧ c ≠ '\n' ∧ c ≠ quote.char := by
  unfold escapeLetter? at h
  split at h
  · cases h
  · rename_i hself
    obtain ⟨hescape, hquote⟩ := not_or.mp hself
    have hnone := List.find?_eq_none.mp (Option.map_eq_none_iff.mp h)
    refine ⟨hescape, ?_, hquote⟩
    rintro rfl
    exact hnone ('\n', 'n') List.mem_cons_self (by simp)

/-- No escape breaks the line. -/
theorem feed_not_mem_writtenChar (quote : Quote) (c : Char) : '\n' ∉ writtenChar quote c := by
  unfold writtenChar
  split
  · rename_i letter hletter
    have hescaped := escaped?_of_escapeLetter? hletter
    rintro hmem
    obtain rfl : '\n' = letter := by simpa using hmem
    cases hescaped
  · rename_i hnone
    have hplain := plain_of_escapeLetter? hnone
    simpa using hplain.2.1.symm

theorem feed_not_mem_written (quote : Quote) (value : List Char) : '\n' ∉ written quote value := by
  intro hmem
  obtain ⟨c, -, hc⟩ := List.mem_flatMap.mp hmem
  exact feed_not_mem_writtenChar quote c hc

/-! ### Literals -/

/-- A character that is written in front of the rest of a literal is read in front of its value. -/
theorem stringBody_writtenChar {quote : Quote} {cs value : List Char} {width : Nat}
    (h : stringBody quote.char cs = .ok (value, width)) (c : Char) :
    stringBody quote.char (writtenChar quote c ++ cs) =
      .ok (c :: value, width + (writtenChar quote c).length) := by
  unfold writtenChar
  split
  · rename_i letter hletter
    rw [List.cons_append, List.singleton_append, stringBody, escaped?_of_escapeLetter? hletter, h]
    rfl
  · rename_i hnone
    obtain ⟨hescape, hfeed, hquote⟩ := plain_of_escapeLetter? hnone
    rw [List.singleton_append, stringBody_cons hescape, if_neg hfeed, if_neg hquote, h]
    rfl

/-- What is written up to the closing quote is read as the value, whatever stands behind. -/
theorem stringBody_written (quote : Quote) (value rest : List Char) :
    stringBody quote.char (written quote value ++ quote.char :: rest) =
      .ok (value, (written quote value).length + 1) := by
  induction value with
  | nil =>
      rw [written, List.flatMap_nil, List.nil_append, stringBody_cons quote.char_ne_backslash,
        if_neg quote.char_ne_feed, if_pos rfl]
      rfl
  | cons c value ih =>
      have hcons : written quote (c :: value) = writtenChar quote c ++ written quote value :=
        List.flatMap_cons
      rw [hcons, List.append_assoc, stringBody_writtenChar ih, List.length_append]
      congr 2
      omega

/-- A quote starts a string literal. -/
theorem scan_quote (quote : Quote) (cs : List Char) :
    scan quote.char cs = scanString quote.char cs := by
  cases quote with
  | double => exact scan_of_ne_slash (by decide) cs
  | single => exact scan_of_ne_slash (by decide) cs

/-- A literal is scanned as its value. -/
theorem scan_literal (quote : Quote) (value rest : List Char) :
    scan quote.char (written quote value ++ quote.char :: rest) =
      .token (.string (String.ofList value)) ((written quote value).length + 2) := by
  rw [scan_quote, scanString, stringBody_written]

/-- Every text is the value of a string literal, between either quotes: the literal that writes it is one token
with this value, and nothing else. -/
theorem tokenize_literal (quote : Quote) (value : String) (file : Option String) :
    tokenize (literal quote value) file =
      .ok [⟨.string value, ⟨1, 1, 0, file⟩⟩,
        ⟨.eof, ⟨1, (literal quote value).length + 1, (literal quote value).length, file⟩⟩] := by
  have htext : (literal quote value).toList = quote.char :: (written quote value.toList ++ [quote.char]) :=
    String.toList_ofList
  have hlength : (written quote value.toList).length + 2 = (literal quote value).toList.length := by
    rw [htext]
    simp
  have hfeed : '\n' ∉ (literal quote value).toList := by
    rw [htext]
    simp [feed_not_mem_written, quote.char_ne_feed.symm]
  have hscan := scan_literal quote value.toList []
  rw [tokenize, htext, tokensFrom_token hscan, ← htext, hlength, List.take_length, List.drop_length,
    Location.after_start_of_not_mem file hfeed, tokensFrom, String.ofList_toList, String.length_toList]
  rfl

example : literal .double "say \"it's\"\n" = "\"say \\\"it's\\\"\\n\"" := by
  decide

end ScriptLens.Token
