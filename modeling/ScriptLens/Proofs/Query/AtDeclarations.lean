import ScriptLens.Proofs.Located
import ScriptLens.Proofs.Symbol.Variables
import ScriptLens.Proofs.Token.Words
import ScriptLens.Query.Snapshot

/-!
# Queries at declarations

A variable, a constant or a function is declared by a name that stands apart from everything around it.  So the word
that a query finds at any place of the name is the whole name, as far as queries know its letters, and the first
symbol with the name is what the query answers with.

Main statement: `queries_at_declaration`.
-/

namespace ScriptLens

open Text

/-! ### Names of declarations in a text -/

/-- The name of a symbol stands in a text at the line and the column of the symbol, with no character of a name on
either side. -/
structure Symbol.StandsApart (s : Symbol) (before behind : List Char) : Prop where
  line : s.line = 1 + (before.count '\n' : Nat)
  column : s.column = 1 + (lastWidth before : Nat)
  nonempty : s.name.toList ≠ []
  letters : ∀ c ∈ s.name.toList, Token.isNameChar c = true
  left : ∀ c, before.getLast? = some c → Token.isNameChar c = false
  right : ∀ c, behind.head? = some c → Token.isNameChar c = false

/-- A symbol that a word declares: a variable, a constant or a function. -/
def Symbol.isNamed (s : Symbol) : Bool :=
  s.kind = .var || s.kind = .constant || s.kind = .function

/-- Such a symbol is that of a declaration. -/
theorem exists_declaration {p : Program} {s : Symbol} (hs : s ∈ p.symbols) (hnamed : s.isNamed = true) :
    ∃ d ∈ p.declarations, s.name = d.name ∧ s.line = lineOf d.location ∧ s.column = columnOf d.location := by
  rw [Program.symbols_eq] at hs
  obtain ⟨statement, hstatement, hown⟩ := List.mem_flatMap.mp hs
  suffices h : ∃ d ∈ statement.ownDeclarations, s.name = d.name ∧ s.line = lineOf d.location ∧
      s.column = columnOf d.location by
    obtain ⟨d, hd, hplace⟩ := h
    exact ⟨d, p.merged.mem_of_left (List.mem_flatMap.mpr ⟨statement, hstatement, hd⟩), hplace⟩
  cases statement with
  | declare constant name value doc loc =>
      obtain rfl := List.mem_singleton.mp hown
      exact ⟨_, List.mem_singleton_self _, rfl, rfl, rfl⟩
  | function name parameters body doc loc =>
      rcases List.mem_cons.mp hown with rfl | hparameter
      · exact ⟨_, List.mem_singleton_self _, rfl, rfl, rfl⟩
      · obtain ⟨parameter, -, rfl⟩ := List.mem_map.mp hparameter
        cases hnamed
  | imports names source loc =>
      obtain ⟨name, -, rfl⟩ := List.mem_map.mp hown
      cases hnamed
  | _ => cases hown

/-- The name of such a symbol stands apart in the text that its program was read from. -/
theorem exists_standsApart {source : String} {file : Option String} {p : Program}
    (hread : Syntax.read source file = .ok p) {s : Symbol} (hs : s ∈ p.symbols)
    (hnamed : s.isNamed = true) :
    ∃ before behind, source.toList = before ++ s.name.toList ++ behind ∧ s.StandsApart before behind := by
  obtain ⟨tokens, htokens, hprogram⟩ := Syntax.tokens_of_read hread
  obtain ⟨d, hd, hname, hline, hcolumn⟩ := exists_declaration hs hnamed
  rw [Syntax.declarations_of_programOf (Syntax.ended_tokenize htokens) hprogram] at hd
  have hcut := Token.tokensFrom_of_tokenize htokens
  rcases Syntax.Recent.exists_of_mem_declaredBy hd with
    ⟨t, rest, -, hopening, -⟩ | ⟨earlier, w, t, rest, rfl, hw, ht, hloc, -⟩
  · cases hopening
  · have hwords : w.kind.isWord = true ∧ t.kind.isWord = true := by
      rw [hw, ht]
      exact ⟨rfl, rfl⟩
    obtain ⟨front, e, c, cs, width, hsource, he, hplace, hscan⟩ :=
      Token.exists_apart hcut hwords.1 hwords.2
    obtain ⟨-, run, behind, hword, hwidth, hrun, hbehind, hspelled⟩ :=
      Token.exists_run_of_word hscan hwords.2
    obtain rfl : s.name.toList = run := by rw [hname, hspelled d.name ht]
    refine ⟨front ++ [e], behind, ?_, ?_⟩
    · rw [hsource, hword]
      simp
    · have hpos := Token.scan_token_width_pos hscan
      refine ⟨?_, ?_, ?_, hrun, ?_, hbehind⟩
      · simp [hline, hloc, lineOf, hplace, Location.line_after, Location.start]
      · simp [hcolumn, hloc, columnOf, hplace, Location.column_after_start]
      · intro hnil
        rw [hnil, List.length_nil] at hwidth
        omega
      · intro a ha
        rw [List.getLast?_concat] at ha
        obtain rfl := Option.some.inj ha
        exact he

/-! ### Words of queries -/

namespace Query

theorem covers_here {low high n : Nat} {rest : Ranges} (hlow : low ≤ n) (hhigh : n ≤ high) :
    Ranges.covers ((low, high) :: rest) n = true := by
  simp [Ranges.covers, hlow, hhigh]

theorem covers_later {low high n : Nat} {rest : Ranges} (hlow : low ≤ n) (h : rest.covers n = true) :
    Ranges.covers ((low, high) :: rest) n = true := by
  simp [Ranges.covers, hlow, h]

theorem isLetter_of_isAlpha {c : Char} (h : c.isAlpha = true) : isLetter c = true := by
  rcases Bool.or_eq_true_iff.mp (h : (c.isUpper || c.isLower) = true) with hupper | hlower
  · obtain ⟨hlow, hhigh⟩ : 65 ≤ c.val ∧ c.val ≤ 90 := of_decide_eq_true hupper
    exact covers_here (UInt32.le_iff_toNat_le.mp hlow) (UInt32.le_iff_toNat_le.mp hhigh)
  · obtain ⟨hlow, hhigh⟩ := Bool.and_eq_true_iff.mp
      (hlower : (decide (97 ≤ c.val) && decide (c.val ≤ 122)) = true)
    have hlow : 97 ≤ c.toNat := UInt32.le_iff_toNat_le.mp (of_decide_eq_true hlow)
    have hhigh : c.toNat ≤ 122 := UInt32.le_iff_toNat_le.mp (of_decide_eq_true hhigh)
    exact covers_later (by omega) (covers_here hlow hhigh)

theorem isDecimal_of_isDigit {c : Char} (h : c.isDigit = true) : isDecimal c = true := by
  have hcode : 48 ≤ c.toNat ∧ c.toNat ≤ 57 := by
    simpa [Char.isDigit, UInt32.le_iff_toNat_le] using h
  rw [isDecimal, decimalValue?, Option.isSome_map, List.find?_isSome]
  exact ⟨48, List.mem_cons_self, by simpa using hcode⟩

/-- What is a letter to a query is one to a name. -/
theorem isNameChar_of_isWordChar {c : Char} (h : isWordChar c = true) : Token.isNameChar c = true := by
  unfold isWordChar Char.isAlphanum at h
  unfold Token.isNameChar isNumeric isDigit
  simp only [Bool.or_eq_true] at h ⊢
  rcases h with ((halpha | hdigit) | hlow) | hdollar
  · simp [isLetter_of_isAlpha halpha]
  · simp [isDecimal_of_isDigit hdigit]
  · simp [hlow]
  · simp [hdollar]

theorem isWordChar_of_isNameChar {c : Char} (h : Token.isNameChar c = false) : isWordChar c = false := by
  cases hword : isWordChar c with
  | false => rfl
  | true =>
      rw [isNameChar_of_isWordChar hword] at h
      cases h

/-- A cursor in a word, or at one of its ends, touches the whole word. -/
theorem wordAt?_of_apart {before word behind : List Char} (hne : word ≠ [])
    (hword : ∀ c ∈ word, isWordChar c = true)
    (hleft : ∀ c, before.getLast? = some c → isWordChar c = false)
    (hright : ∀ c, behind.head? = some c → isWordChar c = false) {k : Nat} (hk : k ≤ word.length) :
    wordAt? (before ++ word ++ behind) (before.length + k) =
      some ⟨word, before.length, before.length + word.length⟩ := by
  have htake : (before ++ word ++ behind).take (before.length + k) = before ++ word.take k := by
    rw [List.append_assoc, List.take_length_add_append, List.take_append_of_le_length hk]
  have hdrop : (before ++ word ++ behind).drop (before.length + k) = word.drop k ++ behind := by
    rw [List.append_assoc, List.drop_length_add_append, List.drop_append_of_le_length hk]
  have hl : ((before ++ word.take k).reverse.takeWhile isWordChar).reverse = word.take k := by
    rw [List.reverse_append, Token.takeWhile_append_stop, List.reverse_reverse]
    · intro c hc
      exact hword c (List.mem_of_mem_take (List.mem_reverse.mp hc))
    · intro c hc
      rw [List.head?_reverse] at hc
      exact hleft c hc
  have hr : (word.drop k ++ behind).takeWhile isWordChar = word.drop k :=
    Token.takeWhile_append_stop (fun c hc => hword c (List.mem_of_mem_drop hc)) hright
  have hsome : word.isEmpty = false := by simpa using hne
  rw [wordAt?, htake, hdrop]
  simp only [hl, hr, List.take_append_drop, hsome, List.length_take, List.length_drop]
  rw [if_neg Bool.false_ne_true, Nat.min_eq_left hk]
  congr 2 <;> omega

end Query

/-! ### Places of names -/

namespace Symbol.StandsApart

variable {s : Symbol} {before behind : List Char}

theorem feed_not_mem (h : s.StandsApart before behind) : '\n' ∉ s.name.toList := by
  intro hfeed
  have hname := h.letters _ hfeed
  cases hname

/-- The part of the name before a place in it widens the line. -/
theorem widened (h : s.StandsApart before behind) {k : Nat} (hk : k ≤ s.name.length) :
    (before ++ s.name.toList.take k).count '\n' = before.count '\n' ∧
      lastWidth (before ++ s.name.toList.take k) = lastWidth before + k := by
  have hfeed : '\n' ∉ s.name.toList.take k := fun hmem => h.feed_not_mem (List.mem_of_mem_take hmem)
  constructor
  · rw [List.count_append, List.count_eq_zero.mpr hfeed, Nat.add_zero]
  · rw [lastWidth_append before hfeed, List.length_take, String.length_toList, Nat.min_eq_left hk]

/-- A place in the name cuts the text. -/
theorem cut (name : List Char) (k : Nat) :
    before ++ name ++ behind = (before ++ name.take k) ++ (name.drop k ++ behind) := by
  rw [List.append_assoc before, List.append_assoc before, ← List.append_assoc (name.take k),
    List.take_append_drop]

theorem length_take (before : List Char) {k : Nat} (hk : k ≤ s.name.length) :
    (before ++ s.name.toList.take k).length = before.length + k := by
  rw [List.length_append, List.length_take, String.length_toList, Nat.min_eq_left hk]

/-- The position on the line of the name that is so many characters behind its first is that place in the name. -/
theorem offset_eq (h : s.StandsApart before behind) {k : Nat} (hk : k ≤ s.name.length) :
    Position.offset ⟨before.count '\n', lastWidth before + k⟩ (before ++ s.name.toList ++ behind) =
      before.length + k := by
  obtain ⟨hcount, hwidth⟩ := h.widened hk
  rw [cut _ k, ← hcount, ← hwidth, Position.offset_append, length_take before hk]

/-- A character of the line, from the first of the name to the one behind its last, is a place in the name. -/
theorem offsetOf_eq (h : s.StandsApart before behind) {k : Nat} (hk : k ≤ s.name.length) :
    Position.offsetOf (before ++ s.name.toList ++ behind) (s.line - 1) (s.column - 1 + k) =
      before.length + k := by
  have hline : s.line - 1 = (before.count '\n' : Nat) := by
    rw [h.line]
    omega
  have hcolumn : s.column - 1 + k = (lastWidth before + k : Nat) := by
    rw [h.column]
    omega
  rw [hline, hcolumn]
  exact h.offset_eq hk

/-- The position of a place in the name is on its line. -/
theorem ofOffset_eq (h : s.StandsApart before behind)
    (hshort : (before ++ s.name.toList ++ behind).length < 2147483648) {k : Nat}
    (hk : k ≤ s.name.length) :
    Position.ofOffset (before ++ s.name.toList ++ behind) (before.length + k : Nat) =
      .ok ⟨before.count '\n', lastWidth before + k⟩ := by
  obtain ⟨hcount, hwidth⟩ := h.widened hk
  rw [cut _ k] at hshort ⊢
  rw [← length_take before hk, Position.ofOffset_append hshort, hcount, hwidth]

/-- The range of the name. -/
theorem onLine_eq (h : s.StandsApart before behind)
    (hshort : (before ++ s.name.toList ++ behind).length < 2147483648) :
    Range.onLine (s.line - 1) (max 0 (s.column - 1)) (max 0 (s.column - 1) + s.name.length) =
      .ok ⟨⟨before.count '\n', lastWidth before⟩,
        ⟨before.count '\n', lastWidth before + s.name.length⟩⟩ := by
  have hmax : maxFieldValue = 2147483647 := rfl
  have hcount : before.count '\n' ≤ before.length := List.count_le_length
  have hwidth := lastWidth_le before
  have hline := h.line
  have hcolumn := h.column
  simp only [List.length_append, String.length_toList] at hshort
  rw [Range.onLine_eq_ok_iff, Position.make_eq_ok_iff, Position.make_eq_ok_iff]
  dsimp only
  omega

theorem range_eq (h : s.StandsApart before behind)
    (hshort : (before ++ s.name.toList ++ behind).length < 2147483648) :
    s.range = .ok ⟨⟨before.count '\n', lastWidth before⟩,
      ⟨before.count '\n', lastWidth before + s.name.length⟩⟩ := by
  have hline := h.line
  have hmax : max 0 (s.line - 1) = s.line - 1 := by omega
  rw [Symbol.range, hmax]
  exact h.onLine_eq hshort

end Symbol.StandsApart

/-! ### Answers -/

namespace Query.Snapshot

/-- What is shown for a word: its parts with a blank line between each two. -/
theorem hoverText_eq (word : String) (s : Symbol) :
    hoverText word.toList s =
      "\n\n".intercalate
        (["**" ++ word ++ "**", s.detail] ++ (s.documentation.filter (!·.isEmpty)).toList) := by
  have hstars : "**\n\n" = "**" ++ "\n\n" := rfl
  rw [hoverText, String.ofList_toList, hstars]
  cases s.documentation.filter (!·.isEmpty) with
  | none => simp [String.intercalate_cons_cons, String.append_assoc]
  | some doc => simp [String.intercalate_cons_cons, String.append_assoc]

/-- The first symbol with a name is what the name means. -/
theorem resolve?_of_find? (source uri : String) {p : Program} {name : String} {s : Symbol}
    (h : Symbol.find? p.symbols name = some s) :
    (⟨source, uri, some p⟩ : Snapshot).resolve? name.toList = some s := by
  rw [resolve?, String.ofList_toList, Symbol.resolve?]
  exact congrArg (Option.or · _) h

theorem resolve?_of_first (source uri : String) {p : Program} {earlier later : List Symbol} {s : Symbol}
    (hsymbols : p.symbols = earlier ++ s :: later) (hfirst : ∀ u ∈ earlier, u.name ≠ s.name) :
    (⟨source, uri, some p⟩ : Snapshot).resolve? s.name.toList = some s := by
  refine resolve?_of_find? source uri ?_
  rw [Symbol.find?, List.find?_eq_some_iff_append]
  exact ⟨by simp, earlier, later, hsymbols, fun u hu => by simpa using hfirst u hu⟩

/-- At every place in a name that stands apart, queries find the name and what it means. -/
theorem meaningAt?_of_standsApart {source uri : String} {p : Program} {s : Symbol}
    {before behind : List Char} (hcut : source.toList = before ++ s.name.toList ++ behind)
    (h : s.StandsApart before behind) (hword : ∀ c ∈ s.name.toList, isWordChar c = true)
    (hmeans : (⟨source, uri, some p⟩ : Snapshot).resolve? s.name.toList = some s) {k : Nat}
    (hk : k ≤ s.name.length) :
    (⟨source, uri, some p⟩ : Snapshot).meaningAt? (s.line - 1) (s.column - 1 + k) =
      some (⟨s.name.toList, before.length, before.length + s.name.length⟩, s) := by
  have hinside : k ≤ s.name.toList.length := by rwa [String.length_toList]
  have hat := wordAt?_of_apart h.nonempty hword
    (fun c hc => isWordChar_of_isNameChar (h.left c hc))
    (fun c hc => isWordChar_of_isNameChar (h.right c hc)) hinside
  rw [String.length_toList] at hat
  rw [meaningAt?, text, hcut, h.offsetOf_eq hk, hat]
  simp [hmeans]

/-- Let a program be read from a text of less than `2 ^ 31` characters, which is not too long for the editor.
Let a variable, a constant or a function of it be the first symbol with its name, and let the name be one that
queries look up.  At every character from the first of the name where it is declared to the one behind its last,
the definition is the range of the name there, and that range with the name, the detail and the documentation that
is not empty is what is shown. -/
theorem queries_at_declaration {source : String} (hshort : source.length < 2147483648)
    {file : Option String} {p : Program} (hread : Syntax.read source file = .ok p)
    {earlier later : List Symbol} {s : Symbol} (hsymbols : p.symbols = earlier ++ s :: later)
    (hfirst : ∀ u ∈ earlier, u.name ≠ s.name)
    (hkind : s.kind = .var ∨ s.kind = .constant ∨ s.kind = .function)
    (hword : ∀ c ∈ s.name.toList, isWordChar c = true) (uri : String) :
    ∃ range before behind, s.range = .ok range ∧ source.toList = before ++ s.name.toList ++ behind ∧
      range.first.offset source.toList = before.length ∧
      range.last.offset source.toList = before.length + s.name.length ∧
      ∀ character : Int, s.column - 1 ≤ character → character ≤ s.column - 1 + s.name.length →
        (⟨source, uri, some p⟩ : Snapshot).definition (s.line - 1) character =
          .ok (some ⟨uri, range⟩) ∧
        (⟨source, uri, some p⟩ : Snapshot).hover (s.line - 1) character =
          .ok (some ⟨"\n\n".intercalate
            (["**" ++ s.name ++ "**", s.detail] ++ (s.documentation.filter (!·.isEmpty)).toList),
            range⟩) := by
  have hnamed : s.isNamed = true := by
    rcases hkind with hkind | hkind | hkind <;> simp [Symbol.isNamed, hkind]
  have hs : s ∈ p.symbols := by
    rw [hsymbols]
    exact List.mem_append_right _ List.mem_cons_self
  obtain ⟨before, behind, hcut, hapart⟩ := exists_standsApart hread hs hnamed
  have hlength : (before ++ s.name.toList ++ behind).length < 2147483648 := by
    rwa [← hcut, String.length_toList]
  refine ⟨_, before, behind, hapart.range_eq hlength, hcut, ?_, ?_, ?_⟩
  · rw [hcut]
    exact hapart.offset_eq (Nat.zero_le _)
  · rw [hcut]
    exact hapart.offset_eq (Nat.le_refl _)
  · intro character hleft hright
    obtain ⟨k, hk⟩ := Int.le.dest hleft
    have hmeans := meaningAt?_of_standsApart hcut hapart hword
      (resolve?_of_first source uri hsymbols hfirst) (k := k) (by omega)
    rw [hk] at hmeans
    constructor
    · have hdeclared : s.isDeclared = true := by
        rw [Symbol.isDeclared, hapart.line]
        exact decide_eq_true (by omega)
      rw [definition, hmeans]
      simp only [hdeclared, if_true, String.length_toList, hapart.onLine_eq hlength]
      rfl
    · have hfirstAt := hapart.ofOffset_eq hlength (Nat.zero_le _)
      have hlastAt := hapart.ofOffset_eq hlength (Nat.le_refl _)
      rw [hover, hmeans]
      rw [Nat.add_zero, Nat.add_zero] at hfirstAt
      simp only [text, hcut, ← hoverText_eq, hfirstAt, hlastAt]
      rfl

/-- A documented function whose name stands right behind a comment and is declared once more below: at the first
character of the name and behind its last. -/
theorem queries_at_declaration_behind_comment :
    ∃ p, Syntax.read "let a\n/// d\nfn/**/f$(x)\x7b\x7d\nlet f$" none = .ok p ∧
      (⟨"let a\n/// d\nfn/**/f$(x)\x7b\x7d\nlet f$", "m", some p⟩ : Snapshot).definition 2 6 =
        .ok (some ⟨"m", ⟨⟨2, 6⟩, ⟨2, 8⟩⟩⟩) ∧
      (⟨"let a\n/// d\nfn/**/f$(x)\x7b\x7d\nlet f$", "m", some p⟩ : Snapshot).hover 2 8 =
        .ok (some ⟨"**f$**\n\nfn f$(x)\n\nd", ⟨⟨2, 6⟩, ⟨2, 8⟩⟩⟩) := by
  have hsymbols : ((Syntax.read "let a\n/// d\nfn/**/f$(x)\x7b\x7d\nlet f$" none).toOption.map fun p =>
      p.symbols.map fun s => ((s.name, s.kind), (s.detail, s.documentation), s.line, s.column)) =
        some [(("a", .var), ("(variable)", none), 1, 5), (("f$", .function), ("fn f$(x)", some "d"), 3, 7),
          (("x", .parameter), ("(parameter of f$)", none), 3, 7), (("f$", .var), ("(variable)", none), 4, 5)] := by
    decide +kernel
  cases hread : Syntax.read "let a\n/// d\nfn/**/f$(x)\x7b\x7d\nlet f$" none with
  | error failure =>
      rw [hread] at hsymbols
      cases hsymbols
  | ok p =>
      rw [hread] at hsymbols
      obtain ⟨a, rest, hp, ha, hrest⟩ := List.map_eq_cons_iff.mp (Option.some.inj hsymbols)
      obtain ⟨f, later, rfl, hf, -⟩ := List.map_eq_cons_iff.mp hrest
      replace hp : p.symbols = [a] ++ f :: later := hp
      simp only [Prod.mk.injEq] at ha hf
      obtain ⟨⟨hname, hkind⟩, ⟨hdetail, hdoc⟩, hline, hcolumn⟩ := hf
      obtain ⟨range, -, -, hrange, -, -, -, hqueries⟩ :=
        queries_at_declaration (by decide) hread hp
          (fun u hu => by simp [List.mem_singleton.mp hu, ha.1.1, hname]) (.inr (.inr hkind))
          (by simp [hname, isWordChar]) "m"
      have hplace : f.range = .ok ⟨⟨2, 6⟩, ⟨2, 8⟩⟩ := by
        rw [Symbol.range, hname, hline, hcolumn]
        rfl
      obtain rfl : range = ⟨⟨2, 6⟩, ⟨2, 8⟩⟩ := Except.ok.inj (hrange.symm.trans hplace)
      rw [hname, hline, hcolumn, hdetail, hdoc] at hqueries
      exact ⟨p, rfl, (hqueries 6 (by decide) (by decide)).1, (hqueries 8 (by decide) (by decide)).2⟩

end Query.Snapshot

end ScriptLens
