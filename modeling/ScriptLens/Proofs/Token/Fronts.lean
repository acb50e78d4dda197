import ScriptLens.Proofs.Layout.Rules
import ScriptLens.Proofs.Token.Cuts

/-!
# What a scan depends on

A scan looks at the characters that it takes and at the one or two behind them.  For each kind of token and
comment there is a lemma that says so: the characters that were taken, with anything behind them that does not
go on with them, are scanned as before.

Main statements: `scanWord_append`, `scanNumeral_append`, `stringBody_append` and `scan_of_isBlank`.
-/

namespace ScriptLens.Token

open Text

/-! ### Characters -/

theorem isBlank_of_isSpace {c : Char} (h : isSpace c = true) : isBlank c = true := by
  have hc : c = ' ' ∨ c = '\t' ∨ c = '\r' ∨ c = '\n' := by simpa [isSpace] using h
  rcases hc with rfl | rfl | rfl | rfl <;> decide

theorem isNameChar_of_isBlank {c : Char} (h : isBlank c = true) : isNameChar c = false := by
  have hword := Layout.not_wordChar_of_blank h
  have hdollar : c ≠ '$' := by
    rintro rfl
    exact absurd h (by decide)
  unfold Layout.isWordChar at hword
  unfold isNameChar
  cases hl : isLetter c <;> cases hn : isNumeric c <;> simp_all

theorem isNumeralChar_of_isBlank {c : Char} (h : isBlank c = true) : isNumeralChar c = false := by
  have hword := Layout.not_wordChar_of_blank h
  unfold Layout.isWordChar isNumeric at hword
  unfold isNumeralChar
  cases hd : isDigit c <;> simp_all

theorem isDigit_of_isBlank {c : Char} (h : isBlank c = true) : isDigit c = false := by
  have hnumeral := isNumeralChar_of_isBlank h
  unfold isNumeralChar at hnumeral
  cases hd : isDigit c <;> simp_all

/-! ### The kinds of scans -/

/-- Where no slash stands, the first character decides what is scanned. -/
theorem scan_of_ne_slash {c : Char} (h : c ≠ '/') (cs : List Char) :
    scan c cs =
      if isSpace c then .gap 1
      else if c = doubleQuote || c = apostrophe then scanString c cs
      else if isDigit c then scanNumeral (c :: cs)
      else if isNameStart c then scanWord (c :: cs)
      else scanMark c cs := by
  unfold scan
  split
  · rfl
  · split
    · exact absurd rfl h
    · exact absurd rfl h
    · exact absurd rfl h
    · rfl

/-- A slash before anything but a slash or a star is a mark. -/
theorem scan_slash {cs : List Char} (hslash : cs.head? ≠ some '/') (hstar : cs.head? ≠ some '*') :
    scan '/' cs = .token (.mark .slash) 1 := by
  have hpair : cs.head?.bind (pairMark? '/') = none := by
    cases cs.head? <;> simp [pairMark?]
  have hmark : scanMark '/' cs = .token (.mark .slash) 1 := by
    rw [scanMark, hpair]
    rfl
  unfold scan
  split
  · rename_i hspace
    exact absurd hspace (by decide)
  · split
    · simp at hslash
    · simp at hslash
    · simp at hstar
    · exact hmark

theorem scan_line {cs : List Char} (h : cs.head? ≠ some '/') :
    scan '/' ('/' :: cs) = .gap (lineWidth cs + 2) := by
  unfold scan
  split
  · rename_i hspace
    exact absurd hspace (by decide)
  · split
    · rename_i heq
      obtain rfl := (List.cons.inj heq).2
      exact absurd rfl h
    · rename_i heq
      obtain rfl := (List.cons.inj heq).2
      rfl
    · rename_i heq
      cases heq
    · rename_i hline _
      exact absurd rfl (hline cs rfl)

/-- A slash before a star starts a comment, which has to be closed. -/
theorem scan_star (body : List Char) :
    scan '/' ('*' :: body) =
      ((blockCommentWidth? body).map fun width => .gap (width + 2)).getD (.fault .openComment 0) := by
  have hspace : isSpace '/' = false := by decide
  cases hbody : blockCommentWidth? body with
  | none => simp [scan, hspace, hbody]
  | some width => simp [scan, hspace, hbody]

/-- A blank that is no space cannot be scanned. -/
theorem scan_of_isBlank {c : Char} (h : isBlank c = true) (hspace : isSpace c = false)
    (cs : List Char) : ∃ cause before, scan c cs = .fault cause before := by
  have hne : ∀ d, isBlank d = false → c ≠ d := by
    rintro d hd rfl
    rw [h] at hd
    cases hd
  have hname : isNameStart c = false := by
    cases hc : isNameStart c with
    | false => rfl
    | true =>
        have := isNameChar_of_isNameStart hc
        rw [isNameChar_of_isBlank h] at this
        cases this
  have hsingle : singleMark? c = none := by
    unfold singleMark?
    split <;> first
      | rfl
      | exact absurd h (by decide)
  have hpair : cs.head?.bind (pairMark? c) = none := by
    cases cs.head? with
    | none => rfl
    | some d =>
        show pairMark? c d = none
        unfold pairMark?
        split <;> first
          | rfl
          | exact absurd h (by decide)
  have hquote : c ≠ doubleQuote := hne _ (by decide)
  have hapostrophe : c ≠ apostrophe := hne _ (by decide)
  rw [scan_of_ne_slash (hne _ (by decide)), hspace, isDigit_of_isBlank h, hname]
  simp [hquote, hapostrophe, scanMark, hpair, hsingle]

/-! ### Words -/

theorem takeWhile_append_of_head {α : Type} {p : α → Bool} (as : List α) {bs : List α}
    (h : ∀ b, bs.head? = some b → p b = false) : (as ++ bs).takeWhile p = as.takeWhile p := by
  induction as with
  | nil =>
      cases bs with
      | nil => rfl
      | cons b bs => simp [h b rfl]
  | cons a as ih =>
      rw [List.cons_append, List.takeWhile_cons, List.takeWhile_cons, ih]

theorem takeWhile_append_stop {p : Char → Bool} {run rest : List Char} (hrun : ∀ c ∈ run, p c = true)
    (hrest : ∀ c, rest.head? = some c → p c = false) : (run ++ rest).takeWhile p = run := by
  have hnone : rest.takeWhile p = [] := takeWhile_append_of_head [] hrest
  rw [List.takeWhile_append_of_pos hrun, hnone, List.append_nil]

theorem dropWhile_append_stop {p : Char → Bool} {run rest : List Char} (hrun : ∀ c ∈ run, p c = true)
    (hrest : ∀ c, rest.head? = some c → p c = false) : (run ++ rest).dropWhile p = rest := by
  have hcut := List.takeWhile_append_dropWhile (p := p) (l := run ++ rest)
  rw [takeWhile_append_stop hrun hrest] at hcut
  exact List.append_cancel_left hcut

/-- A run is cut off where a character does not belong to it. -/
theorem exists_run (p : Char → Bool) (cs : List Char) :
    ∃ run rest, cs = run ++ rest ∧ (∀ c ∈ run, p c = true) ∧
      ∀ c, rest.head? = some c → p c = false := by
  refine ⟨cs.takeWhile p, cs.dropWhile p, List.takeWhile_append_dropWhile.symm, ?_, ?_⟩
  · intro c hc
    exact List.all_eq_true.mp List.all_takeWhile c hc
  · intro c hc
    have hhead := List.head?_dropWhile_not p cs
    rw [hc] at hhead
    simpa using hhead

/-- A word is its run of name characters. -/
theorem scanWord_append {run rest rest' : List Char} (hrun : ∀ c ∈ run, isNameChar c = true)
    (hrest : ∀ c, rest.head? = some c → isNameChar c = false)
    (hrest' : ∀ c, rest'.head? = some c → isNameChar c = false) :
    scanWord (run ++ rest) = scanWord (run ++ rest') := by
  rw [scanWord, scanWord, takeWhile_append_stop hrun hrest, takeWhile_append_stop hrun hrest']

theorem scanWord_width {run rest : List Char} (hrun : ∀ c ∈ run, isNameChar c = true)
    (hrest : ∀ c, rest.head? = some c → isNameChar c = false) {kind : Kind} {width : Nat}
    (h : scanWord (run ++ rest) = .token kind width) : width = run.length := by
  rw [scanWord, takeWhile_append_stop hrun hrest] at h
  split at h <;> exact (Scan.token.inj h).2.symm

/-! ### Comments -/

/-- A line comment goes on to the end of its line. -/
theorem head?_drop_lineWidth {cs : List Char} {d : Char}
    (h : (cs.drop (lineWidth cs)).head? = some d) : d = '\n' := by
  obtain ⟨line, rest, rfl, hline, hrest⟩ := exists_run (· ≠ '\n') cs
  rw [lineWidth, takeWhile_append_stop hline hrest, List.drop_left] at h
  simpa using hrest d h

/-- A comment between stars ends with a slash. -/
theorem getLast?_take_blockComment {cs : List Char} {width : Nat}
    (h : blockCommentWidth? cs = some width) : (cs.take width).getLast? = some '/' := by
  fun_induction blockCommentWidth? cs generalizing width with
  | case1 => cases h
  | case2 cs =>
      obtain rfl := Option.some.inj h
      rfl
  | case3 c cs hclose ih =>
      obtain ⟨inner, hinner, rfl⟩ := Option.map_eq_some_iff.mp h
      rw [List.take_succ_cons, List.getLast?_cons, ih hinner]
      rfl

/-! ### Numerals -/

/-- A numeral is its run of digits and the fraction behind it. -/
theorem scanNumeral_append {run rest rest' : List Char} (hrun : ∀ c ∈ run, isNumeralChar c = true)
    (hrest : ∀ c, rest.head? = some c → isNumeralChar c = false)
    (hrest' : ∀ c, rest'.head? = some c → isNumeralChar c = false)
    (hfraction : fraction rest' = fraction rest) :
    scanNumeral (run ++ rest) = scanNumeral (run ++ rest') := by
  rw [scanNumeral, scanNumeral, takeWhile_append_stop hrun hrest, takeWhile_append_stop hrun hrest',
    List.drop_left, List.drop_left, hfraction]

theorem scanNumeral_width {run rest : List Char} (hrun : ∀ c ∈ run, isNumeralChar c = true)
    (hrest : ∀ c, rest.head? = some c → isNumeralChar c = false) {kind : Kind} {width : Nat}
    (h : scanNumeral (run ++ rest) = .token kind width) :
    width = run.length + if (fraction rest).isEmpty then 0 else (fraction rest).length + 1 := by
  rw [scanNumeral, takeWhile_append_stop hrun hrest, List.drop_left] at h
  split at h
  · rw [← (Scan.token.inj h).2]
    cases fraction rest with
    | nil => simp
    | cons c cs =>
        rw [List.isEmpty_cons, if_neg Bool.false_ne_true, if_neg Bool.false_ne_true,
          List.length_append, List.length_append, List.length_singleton]
        omega
  · cases h

/-- A fraction that is not empty is a run behind a point. -/
theorem exists_fraction {cs : List Char} (h : fraction cs ≠ []) :
    ∃ c run rest, cs = '.' :: c :: (run ++ rest) ∧ isDigit c = true ∧ fraction cs = c :: run ∧
      (∀ d ∈ run, isNumeralChar d = true) ∧ ∀ d, rest.head? = some d → isNumeralChar d = false := by
  unfold fraction at h ⊢
  split at h
  · rename_i c cs
    split at h
    · rename_i hdigit
      obtain ⟨run, rest, rfl, hrun, hrest⟩ := exists_run isNumeralChar cs
      have hc : isNumeralChar c = true := by simp [isNumeralChar, hdigit]
      refine ⟨c, run, rest, rfl, hdigit, ?_, hrun, hrest⟩
      simp [hdigit, hc, takeWhile_append_stop hrun hrest]
    · exact absurd rfl h
  · exact absurd rfl h

theorem fraction_append {c : Char} {run rest : List Char} (hc : isDigit c = true)
    (hrun : ∀ d ∈ run, isNumeralChar d = true)
    (hrest : ∀ d, rest.head? = some d → isNumeralChar d = false) :
    fraction ('.' :: c :: (run ++ rest)) = c :: run := by
  have hnumeral : isNumeralChar c = true := by simp [isNumeralChar, hc]
  simp [fraction, hc, hnumeral, takeWhile_append_stop hrun hrest]

/-! ### Strings -/

theorem ne_backslash {c : Char} {cs : List Char} (hlone : c = '\\' → cs = [] → False)
    (hescape : ∀ d ds, c = '\\' → cs = d :: ds → False) : c ≠ '\\' := by
  intro hc
  cases cs with
  | nil => exact hlone hc rfl
  | cons d ds => exact hescape d ds hc rfl

theorem stringBody_cons {quote c : Char} (h : c ≠ '\\') (cs : List Char) :
    stringBody quote (c :: cs) =
      if c = '\n' then .error (.lineFeedInString, 0)
      else if c = quote then .ok ([], 1)
      else
        match stringBody quote cs with
        | .ok (text, width) => .ok (c :: text, width + 1)
        | .error (cause, before) => .error (cause, before + 1) :=
  stringBody.eq_4 quote c cs (fun hc _ => h hc) fun _ _ hc _ => h hc

/-- A string literal is cut off behind its closing quote, whatever stands there. -/
theorem stringBody_append {quote : Char} {cs text : List Char} {width : Nat}
    (h : stringBody quote cs = .ok (text, width)) :
    ∃ body rest, cs = body ++ rest ∧ body.length = width ∧ body.getLast? = some quote ∧ '\n' ∉ body ∧
      ∀ rest', stringBody quote (body ++ rest') = .ok (text, width) := by
  fun_induction stringBody quote cs generalizing text width with
  | case1 => cases h
  | case2 => cases h
  | case3 c cs hescaped => cases h
  | case4 c cs value hescaped inner n hrest ih =>
      obtain ⟨rfl, rfl⟩ : value :: inner = text ∧ n + 2 = width := by simpa using h
      obtain ⟨body, rest, rfl, rfl, hlast, hfeed, hbody⟩ := ih hrest
      refine ⟨'\\' :: c :: body, rest, rfl, rfl, ?_, ?_, ?_⟩
      · rw [List.getLast?_cons_cons, List.getLast?_cons, hlast]
        rfl
      · have hc : c ≠ '\n' := by
          rintro rfl
          cases hescaped
        simp [Ne.symm hc, hfeed]
      · intro rest'
        rw [List.cons_append, List.cons_append, stringBody, hescaped, hbody rest']
  | case5 c cs value hescaped cause n hrest ih => cases h
  | case6 cs hlone hescape => cases h
  | case7 cs hlone hescape hfeed =>
      obtain ⟨rfl, rfl⟩ : [] = text ∧ 1 = width := by simpa using h
      refine ⟨[quote], cs, rfl, rfl, rfl, by simpa using Ne.symm hfeed, fun rest' => ?_⟩
      rw [List.singleton_append, stringBody_cons (ne_backslash hlone hescape), if_neg hfeed, if_pos rfl]
  | case8 c cs hlone hescape hfeed hquote inner n hrest ih =>
      obtain ⟨rfl, rfl⟩ : c :: inner = text ∧ n + 1 = width := by simpa using h
      have hc := ne_backslash hlone hescape
      obtain ⟨body, rest, rfl, rfl, hlast, hbreak, hbody⟩ := ih hrest
      refine ⟨c :: body, rest, rfl, rfl, ?_, by simp [Ne.symm hfeed, hbreak], fun rest' => ?_⟩
      · rw [List.getLast?_cons, hlast]
        rfl
      · rw [List.cons_append, stringBody_cons hc, if_neg hfeed, if_neg hquote, hbody rest']
  | case9 c cs hlone hescape hfeed hquote cause n hrest ih => cases h

end ScriptLens.Token
