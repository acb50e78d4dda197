import ScriptLens.Proofs.Token.Joining

/-!
# Tokens by themselves

A scan looks past the characters that it takes, but what it sees there never makes it take fewer of them.  So a
text can be cut anywhere behind what a scan took, and the part in front is scanned as before.  Cutting a text at
the starts of its tokens therefore leaves one part for each token, with the blanks and comments behind it, which
gives that token and no other.

Main statements: `scan_token_of_append`, `scan_gap_of_append` and `tokenize_slices`.
-/

namespace ScriptLens.Token

open Text

/-! ### Runs, literals and marks -/

/-- A run that ends inside the first part of a text is a run of that part. -/
theorem takeWhile_of_append {p : Char → Bool} {cs rest : List Char}
    (h : ((cs ++ rest).takeWhile p).length ≤ cs.length) :
    cs.takeWhile p = (cs ++ rest).takeWhile p := by
  induction cs with
  | nil => simpa using h
  | cons c cs ih =>
      rw [List.cons_append, List.takeWhile_cons] at h ⊢
      rw [List.takeWhile_cons]
      split
      · rename_i hc
        rw [if_pos hc, List.length_cons, List.length_cons] at h
        rw [ih (by omega)]
      · rfl

theorem scanWord_of_append {cs rest : List Char} {kind : Kind} {width : Nat}
    (h : scanWord (cs ++ rest) = .token kind width) (hwidth : width ≤ cs.length) :
    scanWord cs = .token kind width := by
  have hrun : ((cs ++ rest).takeWhile isNameChar).length = width := by
    unfold scanWord at h
    dsimp only at h
    split at h <;> exact (Scan.token.inj h).2
  rw [scanWord, takeWhile_of_append (hrun ▸ hwidth)]
  exact h

/-- The part of a list in front of a cut further on. -/
theorem exists_of_append_eq_append (front : List Char) {behind cs rest : List Char}
    (h : front ++ behind = cs ++ rest) (hlength : front.length ≤ cs.length) :
    ∃ more, cs = front ++ more ∧ behind = more ++ rest := by
  obtain ⟨more, hcs⟩ := List.prefix_of_prefix_length_le ⟨behind, h⟩ (List.prefix_append cs rest) hlength
  refine ⟨more, hcs.symm, ?_⟩
  rw [← hcs, List.append_assoc] at h
  exact List.append_cancel_left h

/-- What stands in front of a part of a text stands in front of the text. -/
theorem head?_append_of_head? {more rest : List Char} {d : Char} (h : more.head? = some d) :
    (more ++ rest).head? = some d := by
  simp [h]

theorem fraction_of_append {cs rest : List Char}
    (h : fraction (cs ++ rest) = [] ∨ (fraction (cs ++ rest)).length + 1 ≤ cs.length) :
    fraction cs = fraction (cs ++ rest) := by
  by_cases hnone : fraction (cs ++ rest) = []
  · rw [hnone]
    fun_cases fraction cs with
    | case1 c cs hdigit =>
        have hnumeral : isNumeralChar c = true := by simp [isNumeralChar, hdigit]
        simp [fraction, hdigit, hnumeral] at hnone
    | case2 => rfl
    | case3 => rfl
  · obtain ⟨c, run, behind, hcut, hdigit, hrun, hall, hend⟩ := exists_fraction hnone
    have hlength : ('.' :: c :: run).length ≤ cs.length := by simpa [hrun] using h
    obtain ⟨more, rfl, rfl⟩ := exists_of_append_eq_append ('.' :: c :: run) hcut.symm hlength
    rw [hrun]
    exact fraction_append hdigit hall fun d hd => hend d (head?_append_of_head? hd)

theorem scanNumeral_of_append {cs rest : List Char} {kind : Kind} {width : Nat}
    (h : scanNumeral (cs ++ rest) = .token kind width) (hwidth : width ≤ cs.length) :
    scanNumeral cs = .token kind width := by
  obtain ⟨run, behind, hcut, hrun, hend⟩ := exists_run isNumeralChar (cs ++ rest)
  have hsum := scanNumeral_width hrun hend (hcut ▸ h)
  obtain ⟨more, rfl, rfl⟩ := exists_of_append_eq_append run hcut.symm (by omega)
  have hfraction : fraction more = fraction (more ++ rest) := by
    refine fraction_of_append ?_
    by_cases hnone : fraction (more ++ rest) = []
    · exact Or.inl hnone
    · rw [List.isEmpty_eq_false_iff.mpr hnone, if_neg Bool.false_ne_true] at hsum
      rw [List.length_append] at hwidth
      exact Or.inr (by omega)
  rw [← h, List.append_assoc]
  exact scanNumeral_append hrun (fun d hd => hend d (head?_append_of_head? hd)) hend hfraction.symm

theorem scanString_of_append {quote : Char} {cs rest : List Char} {kind : Kind} {width : Nat}
    (h : scanString quote (cs ++ rest) = .token kind width) (hwidth : width ≤ cs.length + 1) :
    scanString quote cs = .token kind width := by
  unfold scanString at h
  split at h
  · rename_i text inner hbody
    obtain ⟨body, behind, hcut, hlength, -, -, hagain⟩ := stringBody_append hbody
    obtain ⟨-, rfl⟩ := Scan.token.inj h
    obtain ⟨more, rfl, -⟩ := exists_of_append_eq_append body hcut.symm (by omega)
    rw [scanString, hagain]
    exact h
  · cases h
  · cases h

theorem scanMark_of_append {c : Char} {cs rest : List Char} {kind : Kind} {width : Nat}
    (h : scanMark c (cs ++ rest) = .token kind width) (hwidth : width ≤ cs.length + 1) :
    scanMark c cs = .token kind width := by
  cases cs with
  | cons d ds => exact h
  | nil =>
      unfold scanMark at h
      split at h
      · -- a mark of two characters does not fit
        obtain ⟨-, rfl⟩ := Scan.token.inj h
        simp at hwidth
      · exact h

/-! ### Documentation -/

/-- A line that starts with a documentation line is one. -/
theorem isSome_docText?_append {line : List Char} (h : (docText? line).isSome = true)
    (more : List Char) : (docText? (line ++ more)).isSome = true := by
  obtain ⟨indent, rest, rfl, hindent, hrest⟩ := exists_run isIndent line
  rw [docText?_indent hindent] at h
  rw [List.append_assoc, docText?_indent hindent]
  obtain ⟨said, hsaid⟩ := Option.isSome_iff_exists.mp h
  have hhead : rest.dropWhile (fun c => [' ', '\t', '\r'].contains c) = rest := by
    cases rest with
    | nil => rfl
    | cons d ds => exact List.dropWhile_cons_of_neg (by simpa [isIndent] using hrest d rfl)
  rw [docText?, hhead] at hsaid
  split at hsaid
  · rfl
  · cases hsaid

/-- The documentation lines of a line that goes on past the end of a text. -/
theorem docBlock_of_append_line {line rest : List Char} (hfeed : '\n' ∉ line)
    (h : docWidth (line ++ rest) ≤ line.length) : docBlock line = docBlock (line ++ rest) := by
  obtain ⟨first, below, -, hlines⟩ := lines_append hfeed rest
  rw [docWidth, docBlock, hlines] at h
  rw [docBlock, docBlock, hlines, lines_of_not_mem hfeed]
  cases hdoc : (docText? (line ++ first)).isSome with
  | false =>
      have hline : (docText? line).isSome = false := by
        cases hline : (docText? line).isSome with
        | false => rfl
        | true => rw [← hdoc, isSome_docText?_append hline]
      simp [hdoc, hline]
  | true =>
      rw [List.takeWhile_cons, if_pos hdoc] at h
      rw [List.takeWhile_cons (a := line ++ first), if_pos hdoc]
      cases hblock : below.takeWhile fun line => (docText? line).isSome with
      | nil =>
          -- the line fills its part of the text
          rw [hblock, unlines_singleton, List.length_append] at h
          obtain rfl : first = [] := by
            apply List.eq_nil_of_length_eq_zero
            omega
          rw [List.append_nil] at hdoc ⊢
          simp [hdoc]
      | cons next more =>
          rw [hblock, unlines_cons _ (List.cons_ne_nil next more), List.length_append, List.length_append,
            List.length_cons] at h
          omega

/-- Documentation lines that end inside the first part of a text are those of that part. -/
theorem docBlock_of_append {text rest : List Char} (h : docWidth (text ++ rest) ≤ text.length) :
    docBlock text = docBlock (text ++ rest) := by
  induction hn : text.length using Nat.strongRecOn generalizing text with
  | ind n ih =>
      subst hn
      obtain ⟨line, behind, rfl, hline, hend⟩ := exists_run (· ≠ '\n') text
      have hfeed : '\n' ∉ line := fun hmem => by simpa using hline '\n' hmem
      cases behind with
      | nil =>
          rw [List.append_nil] at h ⊢
          exact docBlock_of_append_line hfeed h
      | cons c below =>
          obtain rfl : c = '\n' := by simpa using hend c rfl
          rw [List.append_assoc, List.cons_append] at h ⊢
          cases hdoc : (docText? line).isSome with
          | false =>
              rw [docBlock, docBlock, lines_append_feed hfeed, lines_append_feed hfeed]
              simp [hdoc]
          | true =>
              have hbelow : docWidth (below ++ rest) ≤ below.length := by
                by_cases hnone : docBlock (below ++ rest) = []
                · simp [docWidth, hnone]
                · rw [Layout.docWidth_feed hfeed hdoc hnone] at h
                  simp at h
                  omega
              rw [docBlock_feed hfeed hdoc, docBlock_feed hfeed hdoc, ih _ (by simp; omega) hbelow rfl]

theorem scanDoc_of_append (text : List Char) {rest : List Char} {kind : Kind} {width : Nat}
    (h : scanDoc (text ++ rest) = .token kind width) (hwidth : width ≤ text.length) :
    scanDoc text = .token kind width := by
  have hsame : docBlock text = docBlock (text ++ rest) := by
    refine docBlock_of_append ?_
    rw [scanDoc_eq] at h
    rw [(Scan.token.inj h).2]
    exact hwidth
  rw [← h, scanDoc_eq, scanDoc_eq, docTexts, docTexts, docWidth, docWidth, hsame]

/-! ### Comments -/

theorem two_le_blockCommentWidth? {cs : List Char} {width : Nat}
    (h : blockCommentWidth? cs = some width) : 2 ≤ width := by
  fun_induction blockCommentWidth? cs generalizing width with
  | case1 => cases h
  | case2 rest =>
      obtain rfl := Option.some.inj h
      exact Nat.le_refl 2
  | case3 c cs hother ih =>
      obtain ⟨inner, hinner, rfl⟩ := Option.map_eq_some_iff.mp h
      exact Nat.le_succ_of_le (ih hinner)

theorem blockCommentWidth?_of_append {cs rest : List Char} {width : Nat}
    (h : blockCommentWidth? (cs ++ rest) = some width) (hwidth : width ≤ cs.length) :
    blockCommentWidth? cs = some width := by
  induction cs generalizing width with
  | nil =>
      have htwo := two_le_blockCommentWidth? h
      simp at hwidth
      omega
  | cons c cs ih =>
      by_cases hclose : c = '*' ∧ (cs ++ rest).head? = some '/'
      · obtain ⟨rfl, hslash⟩ := hclose
        have htwo := two_le_blockCommentWidth? h
        cases cs with
        | nil =>
            simp at hwidth
            omega
        | cons d ds =>
            obtain rfl : d = '/' := by simpa using hslash
            exact h
      · have hopen : c = '*' → (cs ++ rest).head? ≠ some '/' := fun hc hslash => hclose ⟨hc, hslash⟩
        rw [List.cons_append, Layout.blockCommentWidth?_cons hopen] at h
        obtain ⟨inner, hinner, rfl⟩ := Option.map_eq_some_iff.mp h
        rw [Layout.blockCommentWidth?_cons fun hc hslash => hopen hc (head?_append_of_head? hslash),
          ih hinner (by simpa using hwidth)]
        rfl

/-! ### Scans -/

/-- A token that ends inside the first part of a text is the token of that part. -/
theorem scan_token_of_append {c : Char} {cs rest : List Char} {kind : Kind} {width : Nat}
    (h : scan c (cs ++ rest) = .token kind width) (hwidth : width ≤ cs.length + 1) :
    scan c cs = .token kind width := by
  by_cases hc : c = '/'
  · subst hc
    by_cases hslash : (cs ++ rest).head? = some '/'
    · obtain ⟨below, hbelow⟩ := List.head?_eq_some_iff.mp hslash
      by_cases hdoc : below.head? = some '/'
      · -- the three slashes of documentation stand in the first part
        obtain ⟨said, rfl⟩ := List.head?_eq_some_iff.mp hdoc
        rw [hbelow] at h
        replace h : scanDoc ('/' :: '/' :: '/' :: said) = .token kind width := h
        have hthree := three_le_scanDoc_width h
        obtain ⟨more, rfl, rfl⟩ :=
          exists_of_append_eq_append ['/', '/'] hbelow.symm (by simp; omega)
        exact scanDoc_of_append ('/' :: '/' :: '/' :: more) h (by simpa using hwidth)
      · rw [hbelow, scan_line hdoc] at h
        cases h
    · by_cases hstar : (cs ++ rest).head? = some '*'
      · obtain ⟨body, hbody⟩ := List.head?_eq_some_iff.mp hstar
        rw [hbody, scan_star] at h
        cases hclosed : blockCommentWidth? body <;> simp [hclosed] at h
      · rw [← h, scan_slash hslash hstar]
        exact scan_slash (fun hd => hslash (head?_append_of_head? hd))
          fun hd => hstar (head?_append_of_head? hd)
  · rw [scan_of_ne_slash hc] at h ⊢
    rw [← List.cons_append] at h
    split at h
    · cases h
    · rename_i hspace
      rw [if_neg hspace]
      split at h
      · rename_i hquote
        rw [if_pos hquote]
        exact scanString_of_append h hwidth
      · rename_i hquote
        rw [if_neg hquote]
        split at h
        · rename_i hdigit
          rw [if_pos hdigit]
          exact scanNumeral_of_append h hwidth
        · rename_i hdigit
          rw [if_neg hdigit]
          split at h
          · rename_i hname
            rw [if_pos hname]
            exact scanWord_of_append h hwidth
          · rename_i hname
            rw [if_neg hname]
            exact scanMark_of_append h hwidth

/-- What is passed over inside the first part of a text is passed over in that part. -/
theorem scan_gap_of_append {c : Char} {cs rest : List Char} {width : Nat}
    (h : scan c (cs ++ rest) = .gap width) (hwidth : width ≤ cs.length + 1) :
    scan c cs = .gap width := by
  rcases scan_gap_cases h with
    ⟨hspace, rfl⟩ | ⟨line, rfl, hcut, hline, rfl⟩ | ⟨body, inner, rfl, hcut, hinner, rfl⟩
  · unfold scan
    rw [if_pos hspace]
  · obtain ⟨more, rfl, rfl⟩ := exists_of_append_eq_append ['/'] hcut.symm (by simp; omega)
    have hrun : lineWidth more = lineWidth (more ++ rest) := by
      rw [lineWidth, lineWidth, takeWhile_of_append]
      simpa [lineWidth] using hwidth
    rw [← hrun]
    exact scan_line fun hd => hline (head?_append_of_head? hd)
  · obtain ⟨more, rfl, rfl⟩ := exists_of_append_eq_append ['*'] hcut.symm (by simp; omega)
    rw [List.singleton_append, scan_star, blockCommentWidth?_of_append hinner (by simpa using hwidth)]
    rfl

/-! ### Parts of a text -/

/-- A text that has no token but the mark of its end, wherever it stands. -/
def Idle (text : List Char) : Prop :=
  ∀ loc, tokensFrom 0 loc text = .ok [⟨.eof, loc.after text⟩]

/-- A text that has one token and the mark of its end, wherever it stands. -/
def Single (kind : Kind) (text : List Char) : Prop :=
  ∀ loc, tokensFrom 0 loc text = .ok [⟨kind, loc⟩, ⟨.eof, loc.after text⟩]

theorem idle_nil : Idle [] := fun _ => rfl

theorem Idle.of_gap {c : Char} {cs : List Char} {width : Nat} (hscan : scan c cs = .gap width)
    (h : Idle ((c :: cs).drop width)) : Idle (c :: cs) := by
  intro loc
  rw [tokensFrom_gap hscan, h, ← Location.after_append, List.take_append_drop]

theorem Single.of_token {c : Char} {cs : List Char} {kind : Kind} {width : Nat}
    (hscan : scan c cs = .token kind width) (h : Idle ((c :: cs).drop width)) :
    Single kind (c :: cs) := by
  intro loc
  rw [tokensFrom_token hscan, h, ← Location.after_append, List.take_append_drop]
  rfl

/-- What a scan took and some of what is behind it. -/
theorem exists_part {c : Char} {cs lead behind : List Char} {width : Nat} (hpos : 1 ≤ width)
    (hle : width ≤ (c :: cs).length) (hdrop : (c :: cs).drop width = lead ++ behind) :
    ∃ part, cs = part ++ behind ∧ width ≤ part.length + 1 ∧
      (c :: part).take width = (c :: cs).take width ∧ (c :: part).drop width = lead := by
  obtain ⟨n, rfl⟩ := Nat.exists_eq_add_of_le' hpos
  have hn : n ≤ cs.length := by simpa using hle
  have hlength : (cs.take n).length = n := List.length_take_of_le hn
  refine ⟨cs.take n ++ lead, ?_, by simp [hlength], ?_, ?_⟩
  · rw [List.append_assoc, ← hdrop]
    exact (List.take_append_drop n cs).symm
  · rw [List.take_succ_cons, List.take_succ_cons, List.take_append_of_le_length (by omega),
      List.take_take, Nat.min_self]
  · rw [List.drop_succ_cons, List.drop_append_of_le_length (by omega), List.drop_take, Nat.sub_self]
    rfl

/-- The first token of a text stands behind a part of the text that has none. -/
theorem exists_lead {loc : Location} {text : List Char} {t : Token} {ts : List Token}
    (h : tokensFrom 0 loc text = .ok (t :: ts)) :
    ∃ lead behind, text = lead ++ behind ∧ Idle lead ∧ t.location = loc.after lead ∧
      tokensFrom 0 (loc.after lead) behind = .ok (t :: ts) ∧
      (behind = [] ∧ ts = [] ∨ ∃ c cs width, behind = c :: cs ∧ scan c cs = .token t.kind width) := by
  induction text using cut_induction generalizing loc with
  | nil =>
      obtain ⟨rfl, rfl⟩ := List.cons.inj (Except.ok.inj h)
      exact ⟨[], [], rfl, idle_nil, rfl, rfl, Or.inl ⟨rfl, rfl⟩⟩
  | gap c cs width hscan ih =>
      rw [tokensFrom_gap hscan] at h
      obtain ⟨lead, behind, hdrop, hidle, hloc, hrest, hfirst⟩ := ih h
      obtain ⟨part, rfl, hwidth, htake, rfl⟩ :=
        exists_part (scan_gap_width_pos hscan) (scan_gap_width_le hscan) hdrop
      rw [← htake, ← Location.after_append, List.take_append_drop] at hloc hrest
      exact ⟨c :: part, behind, rfl, hidle.of_gap (scan_gap_of_append hscan hwidth), hloc, hrest, hfirst⟩
  | token c cs kind width hscan ih =>
      refine ⟨[], c :: cs, rfl, idle_nil, ?_⟩
      obtain ⟨others, htokens, -⟩ := exists_of_tokensFrom_token hscan h
      obtain ⟨rfl, rfl⟩ := List.cons.inj htokens
      exact ⟨rfl, h, Or.inr ⟨c, cs, width, rfl, hscan⟩⟩
  | fault c cs cause before hscan => simp [tokensFrom, hscan] at h
  | valueless c cs numeral hscan => simp [tokensFrom, hscan] at h

/-- The text from the start of a token to the start of the next has that token and no other. -/
theorem exists_single {loc : Location} {text : List Char} {before after : List Token} {t u : Token}
    (h : tokensFrom 0 loc text = .ok (before ++ t :: u :: after)) :
    ∃ front part behind, text = front ++ part ++ behind ∧ t.location = loc.after front ∧
      u.location = loc.after (front ++ part) ∧ Single t.kind part := by
  induction before generalizing loc text with
  | nil =>
      obtain ⟨lead, here, rfl, -, hloc, hhere, hfirst⟩ := exists_lead h
      obtain ⟨-, hnone⟩ | ⟨c, cs, width, rfl, hscan⟩ := hfirst
      · cases hnone
      · obtain ⟨next, htokens, hnext⟩ := exists_of_tokensFrom_token hscan hhere
        obtain ⟨-, rfl⟩ := List.cons.inj htokens
        obtain ⟨gap, behind, hdrop, hidle, hu, -⟩ := exists_lead hnext
        obtain ⟨part, rfl, hwidth, htake, rfl⟩ :=
          exists_part (scan_token_width_pos hscan) (scan_token_width_le hscan) hdrop
        refine ⟨lead, c :: part, behind, by simp, hloc, ?_,
          .of_token (scan_token_of_append hscan hwidth) hidle⟩
        rw [hu, ← htake, ← Location.after_append, ← Location.after_append, List.take_append_drop]
  | cons b before ih =>
      obtain ⟨lead, here, rfl, -, -, hhere, hfirst⟩ := exists_lead h
      obtain ⟨-, hnone⟩ | ⟨c, cs, width, rfl, hscan⟩ := hfirst
      · cases before <;> cases hnone
      · obtain ⟨next, htokens, hnext⟩ := exists_of_tokensFrom_token hscan hhere
        obtain ⟨-, rfl⟩ := List.cons.inj htokens
        obtain ⟨front, part, behind, hdrop, ht, hu, hsingle⟩ := ih hnext
        refine ⟨lead ++ (c :: cs).take width ++ front, part, behind, ?_, ?_, ?_, hsingle⟩
        · rw [List.append_assoc, List.append_assoc, List.append_assoc, ← List.append_assoc front, ← hdrop,
            List.take_append_drop]
        · rw [ht, Location.after_append, Location.after_append]
        · rw [hu, List.append_assoc, Location.after_append loc, Location.after_append loc]

/-! ### Slices of a source text -/

/-- The part of a text from one offset up to another. -/
def slice (source : String) (first last : Int) : String :=
  String.ofList ((source.toList.take last.toNat).drop first.toNat)

/-- The text from an offset up to the first token, and then from each token up to the next one. -/
def slices (source : String) : (first : Int) → List Token → List String
  | _, [] => []
  | first, t :: ts => slice source first t.location.offset :: slices source t.location.offset ts

theorem toList_slice {source : String} (front : List Char) {part behind : List Char}
    (h : source.toList = front ++ part ++ behind) :
    (slice source front.length (front ++ part).length).toList = part := by
  rw [slice, String.toList_ofList, h, Int.toNat_natCast, Int.toNat_natCast, List.take_left, List.drop_left]

theorem tokenize_of_tokensFrom {source : String} {file : Option String} {tokens : List Token}
    (h : tokensFrom 0 (.start file) source.toList = .ok tokens) : tokenize source file = .ok tokens := by
  rw [tokenize, h]
  rfl

/-- The slices of a text up to its end make up the text. -/
theorem flatMap_slices {source : String} {first : Int} {init : List Token} {last : Token}
    (hpos : 0 ≤ first) (hfirst : ∀ t ∈ init, first ≤ t.location.offset)
    (hordered : (init ++ [last]).Pairwise fun t u => t.location.offset < u.location.offset)
    (hend : last.location.offset = source.toList.length) :
    (slices source first (init ++ [last])).flatMap String.toList = source.toList.drop first.toNat := by
  induction init generalizing first with
  | nil => simp [slices, slice, hend]
  | cons t init ih =>
      obtain ⟨hnext, hrest⟩ := List.pairwise_cons.mp hordered
      have ht := hfirst t List.mem_cons_self
      have hbehind := ih (by omega) (fun u hu => Int.le_of_lt (hnext u (by simp [hu]))) hrest
      have hsum : t.location.offset.toNat = first.toNat + (t.location.offset.toNat - first.toNat) := by
        omega
      rw [List.cons_append, slices, List.flatMap_cons, hbehind, slice, String.toList_ofList,
        List.drop_take, hsum, ← List.drop_drop, ← hsum, List.take_append_drop]

theorem join_slices {source : String} {file : Option String} {tokens : List Token}
    (h : tokenize source file = .ok tokens) : String.join (slices source 0 tokens) = source := by
  have hplaced := placed_tokenize h
  obtain ⟨init, hinit, -⟩ := hplaced.ended
  have hpos : ∀ t ∈ init, 0 ≤ t.location.offset := by
    intro t ht
    obtain ⟨before, behind, -, hloc⟩ := hplaced.reached t (hinit ▸ List.mem_append_left _ ht)
    rw [hloc, Location.offset_after_start]
    exact Int.natCast_nonneg _
  have hslices := flatMap_slices (Int.le_refl 0) hpos (hinit ▸ hplaced.ordered)
    (Location.offset_after_start file source.toList)
  rw [← hinit] at hslices
  exact String.toList_inj.mp (String.toList_join.trans hslices)

/-- A text can be cut at the starts of its tokens.  What is before the first token has no token, each other part
has exactly the token that it starts with, and the parts make up the text. -/
theorem tokenize_slices {source : String} {file : Option String} {tokens : List Token}
    (h : tokenize source file = .ok tokens) (name : Option String) :
    (∃ first rest, tokens = first :: rest ∧
      tokenize (slice source 0 first.location.offset) name =
        .ok [⟨.eof, (Location.start name).after (slice source 0 first.location.offset).toList⟩]) ∧
    (∀ before t u after, tokens = before ++ t :: u :: after →
      tokenize (slice source t.location.offset u.location.offset) name =
        .ok [⟨t.kind, .start name⟩, ⟨.eof, (Location.start name).after
          (slice source t.location.offset u.location.offset).toList⟩]) ∧
    String.join (slices source 0 tokens) = source := by
  have hcut := tokensFrom_of_tokenize h
  refine ⟨?_, ?_, join_slices h⟩
  · obtain ⟨init, hinit, -⟩ := (placed_tokenize h).ended
    obtain ⟨first, rest, rfl⟩ := List.exists_cons_of_ne_nil (l := tokens) (by simp [hinit])
    refine ⟨first, rest, rfl, tokenize_of_tokensFrom ?_⟩
    obtain ⟨lead, behind, htext, hidle, hloc, -⟩ := exists_lead hcut
    have hslice : (slice source 0 first.location.offset).toList = lead := by
      rw [hloc, Location.offset_after_start]
      exact toList_slice [] htext
    rw [hslice]
    exact hidle _
  · rintro before t u after rfl
    obtain ⟨front, part, behind, htext, ht, hu, hsingle⟩ := exists_single hcut
    refine tokenize_of_tokensFrom ?_
    have hslice : (slice source t.location.offset u.location.offset).toList = part := by
      rw [ht, hu, Location.offset_after_start, Location.offset_after_start]
      exact toList_slice front htext
    rw [hslice]
    exact hsingle _

/-- Documentation of two lines, a comparison, a point that starts no fraction and comments of both forms. -/
theorem tokenize_slices_documented :
    ∃ source tokens, source = "/// a\n /// b\n\nx==1. /* ; */y//z" ∧ tokenize source none = .ok tokens ∧
      tokenize (slice source 0 14) none =
        .ok [⟨.doc "a\nb", .start none⟩, ⟨.eof, (Location.start none).after (slice source 0 14).toList⟩] ∧
      tokenize (slice source 18 27) none =
        .ok [⟨.mark .dot, .start none⟩, ⟨.eof, (Location.start none).after (slice source 18 27).toList⟩] ∧
      String.join (slices source 0 tokens) = source := by
  obtain ⟨one, htokens⟩ : ∃ one, tokenize "/// a\n /// b\n\nx==1. /* ; */y//z" none = .ok
      [⟨.doc "a\nb", ⟨1, 1, 0, none⟩⟩, ⟨.identifier "x", ⟨4, 1, 14, none⟩⟩,
        ⟨.mark .equal, ⟨4, 2, 15, none⟩⟩, ⟨.number one, ⟨4, 4, 17, none⟩⟩,
        ⟨.mark .dot, ⟨4, 5, 18, none⟩⟩, ⟨.identifier "y", ⟨4, 14, 27, none⟩⟩,
        ⟨.eof, ⟨4, 18, 31, none⟩⟩] := ⟨_, rfl⟩
  obtain ⟨-, hparts, hjoin⟩ := tokenize_slices htokens none
  have hdoc := hparts [] _ _ _ rfl
  have hdot := hparts [_, _, _, _] _ _ _ rfl
  exact ⟨_, _, rfl, htokens, hdoc, hdot, hjoin⟩

end ScriptLens.Token
