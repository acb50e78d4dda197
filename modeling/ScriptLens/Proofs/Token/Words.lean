import ScriptLens.Proofs.Token.Fronts

/-!
# Words stand apart

A name or a reserved word goes on as long as it can, so two of them in a row have something between them.  That is
a blank or a comment, and neither ends with a character of a name: a comment ends with its line, or with a slash.

Main statements: `exists_run_of_word` and `exists_apart`.
-/

namespace ScriptLens

/-- A name or a reserved word. -/
def Kind.isWord : Kind → Bool
  | .identifier _ => true
  | .keyword _ => true
  | _ => false

theorem ne_eof_of_isWord {kind : Kind} (h : kind.isWord = true) : kind ≠ .eof := by
  rintro rfl
  cases h

namespace Token

/-! ### One word -/

/-- A word is a run of characters of names which nothing goes on with. -/
theorem exists_run_of_word {c : Char} {cs : List Char} {kind : Kind} {width : Nat}
    (h : scan c cs = .token kind width) (hword : kind.isWord = true) :
    isNameStart c = true ∧ ∃ run rest, c :: cs = run ++ rest ∧ run.length = width ∧
      (∀ d ∈ run, isNameChar d = true) ∧ (∀ d, rest.head? = some d → isNameChar d = false) ∧
      ∀ name, kind = .identifier name → name.toList = run := by
  rcases scan_token_cases h with ⟨rest, -, -, h⟩ | ⟨-, h⟩ | ⟨-, h⟩ | ⟨hc, h⟩ | h
  · obtain ⟨text, rfl⟩ := scanDoc_kind h
    cases hword
  · obtain ⟨value, rfl⟩ := scanString_kind h
    cases hword
  · obtain ⟨value, rfl⟩ := scanNumeral_kind h
    cases hword
  · obtain ⟨run, rest, hcut, hrun, hrest⟩ := exists_run isNameChar (c :: cs)
    rw [hcut] at h
    refine ⟨hc, run, rest, hcut, (scanWord_width hrun hrest h).symm, hrun, hrest, ?_⟩
    rintro name rfl
    rw [scanWord, takeWhile_append_stop hrun hrest] at h
    split at h
    · cases h
    · obtain ⟨hname, -⟩ := Scan.token.inj h
      rw [← Kind.identifier.inj hname, String.toList_ofList]
  · obtain ⟨m, rfl⟩ := scanMark_kind h
    cases hword

/-! ### What stands before a token -/

/-- What can be passed over right before a token does not end with a character of a name. -/
theorem isNameChar_of_gap {c e : Char} {cs es : List Char} {width w : Nat} {kind : Kind}
    (h : scan c cs = .gap width) (hdrop : (c :: cs).drop width = e :: es)
    (hscan : scan e es = .token kind w) {d : Char} (hd : ((c :: cs).take width).getLast? = some d) :
    isNameChar d = false := by
  rcases scan_gap_cases h with ⟨hspace, rfl⟩ | ⟨rest, rfl, rfl, -, rfl⟩ | ⟨rest, inner, rfl, rfl, hinner, rfl⟩
  · obtain rfl : c = d := by simpa using hd
    exact isNameChar_of_isBlank (isBlank_of_isSpace hspace)
  · -- behind a line comment stands a line feed, which is no token
    have hhead : (rest.drop (lineWidth rest)).head? = some e := by
      rw [show rest.drop (lineWidth rest) = e :: es from hdrop]
      rfl
    obtain rfl := head?_drop_lineWidth hhead
    cases hscan
  · have hlast : ('/' :: '*' :: rest.take inner).getLast? = some '/' := by
      rw [List.getLast?_cons_cons, List.getLast?_cons, getLast?_take_blockComment hinner]
      rfl
    obtain rfl : '/' = d := Option.some.inj (hlast.symm.trans hd)
    decide

/-- The first token of a text stands behind what can be passed over, and the other tokens behind it. -/
theorem exists_first {loc : Location} {text : List Char} {t : Token} {rest : List Token}
    (h : tokensFrom 0 loc text = .ok (t :: rest)) (hkind : t.kind ≠ .eof) :
    ∃ gap c cs width, text = gap ++ c :: cs ∧ t.location = loc.after gap ∧
      scan c cs = .token t.kind width ∧ ∀ d, gap.getLast? = some d → isNameChar d = false := by
  induction text using cut_induction generalizing loc with
  | nil =>
      obtain ⟨rfl, -⟩ := List.cons.inj (Except.ok.inj h)
      exact absurd rfl hkind
  | gap c cs width hscan ih =>
      rw [tokensFrom_gap hscan] at h
      obtain ⟨gap, e, es, w, hdrop, hloc, hat, hlast⟩ := ih h
      refine ⟨(c :: cs).take width ++ gap, e, es, w, ?_, ?_, hat, fun d hd => ?_⟩
      · rw [List.append_assoc, ← hdrop, List.take_append_drop]
      · rw [hloc, Location.after_append]
      · rcases List.eq_nil_or_concat gap with rfl | ⟨front, b, hgap⟩
        · rw [List.append_nil] at hd
          exact isNameChar_of_gap hscan hdrop hat hd
        · rw [List.concat_eq_append] at hgap
          rw [hgap, ← List.append_assoc, List.getLast?_concat] at hd
          exact hlast d (by rw [hgap, List.getLast?_concat, hd])
  | token c cs kind width hscan ih =>
      obtain ⟨others, htokens, -⟩ := exists_of_tokensFrom_token hscan h
      obtain ⟨rfl, -⟩ := List.cons.inj htokens
      exact ⟨[], c, cs, width, rfl, rfl, hscan, by simp⟩
  | fault c cs cause before hscan => simp [tokensFrom, hscan] at h
  | valueless c cs numeral hscan => simp [tokensFrom, hscan] at h

/-! ### Two words in a row -/

/-- A word right behind another one stands apart from it. -/
theorem exists_apart {loc : Location} {text : List Char} {before after : List Token} {w t : Token}
    (h : tokensFrom 0 loc text = .ok (before ++ w :: t :: after)) (hw : w.kind.isWord = true)
    (ht : t.kind.isWord = true) :
    ∃ front d c cs width, text = front ++ d :: c :: cs ∧ isNameChar d = false ∧
      t.location = loc.after (front ++ [d]) ∧ scan c cs = .token t.kind width := by
  induction text using cut_induction generalizing loc before with
  | nil =>
      have hlength : 1 = (before ++ w :: t :: after).length := congrArg List.length (Except.ok.inj h)
      simp only [List.length_append, List.length_cons] at hlength
      omega
  | gap c cs width hscan ih =>
      rw [tokensFrom_gap hscan] at h
      obtain ⟨front, d, e, es, n, hdrop, hd, hloc, hat⟩ := ih h
      refine ⟨(c :: cs).take width ++ front, d, e, es, n, ?_, hd, ?_, hat⟩
      · rw [List.append_assoc, ← hdrop, List.take_append_drop]
      · rw [hloc, List.append_assoc, Location.after_append loc]
  | token c cs kind width hscan ih =>
      obtain ⟨others, htokens, hrest⟩ := exists_of_tokensFrom_token hscan h
      cases before with
      | nil =>
          -- the word before has ended, so that the next one cannot start right behind it
          obtain ⟨rfl, rfl⟩ := List.cons.inj htokens.symm
          obtain ⟨-, run, rest, hcut, rfl, -, hrest', -⟩ := exists_run_of_word hscan hw
          rw [hcut, List.take_left, List.drop_left] at hrest
          obtain ⟨gap, e, es, n, rfl, hloc, hat, hlast⟩ := exists_first hrest (ne_eof_of_isWord ht)
          rcases List.eq_nil_or_concat gap with rfl | ⟨front, d, rfl⟩
          · have hstart := isNameChar_of_isNameStart (exists_run_of_word hat ht).1
            rw [hrest' e rfl] at hstart
            cases hstart
          · refine ⟨run ++ front, d, e, es, n, ?_, hlast d (by simp), ?_, hat⟩
            · rw [hcut]
              simp
            · rw [hloc, ← Location.after_append]
              simp
      | cons b bs =>
          obtain ⟨-, rfl⟩ := List.cons.inj htokens.symm
          obtain ⟨front, d, e, es, n, hdrop, hd, hloc, hat⟩ := ih hrest
          refine ⟨(c :: cs).take width ++ front, d, e, es, n, ?_, hd, ?_, hat⟩
          · rw [List.append_assoc, ← hdrop, List.take_append_drop]
          · rw [hloc, List.append_assoc, Location.after_append loc]
  | fault c cs cause before hscan => simp [tokensFrom, hscan] at h
  | valueless c cs numeral hscan => simp [tokensFrom, hscan] at h

end Token

end ScriptLens
