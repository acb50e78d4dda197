import ScriptLens.Proofs.Query.AtDeclarations
import ScriptLens.Proofs.Query.Returns

/-!
# Signatures have the declared parameters

A symbol keeps the parameters of what it names only in the detail that is shown for it: a function after its name, a
variable that starts as a function within the type of the variable.  The signature of a call is read off that detail.
Parameters are names, which have neither a comma nor a parenthesis nor a blank, so nothing in them is taken for what
the detail puts around them, and the parameters that are read are those that were declared.

Main statement: `signature_of_call`.
-/

namespace ScriptLens

open Text

/-! ### Names -/

/-- A name as a program can spell it. -/
structure IsName (name : String) : Prop where
  nonempty : name.toList ≠ []
  letters : ∀ c ∈ name.toList, Token.isNameChar c = true

namespace IsName

variable {name : String}

theorem not_mem (h : IsName name) {c : Char} (hc : Token.isNameChar c = false) : c ∉ name.toList := by
  intro hmem
  rw [h.letters c hmem] at hc
  cases hc

theorem isBlank_eq_false (h : IsName name) {c : Char} (hc : c ∈ name.toList) : isBlank c = false := by
  cases hblank : isBlank c with
  | false => rfl
  | true => exact absurd hc (h.not_mem (Token.isNameChar_of_isBlank hblank))

theorem isPlain (h : IsName name) {c : Char} (hc : c ∈ name.toList) : Query.isPlain c = true := by
  have hopen : c ≠ '(' := by
    rintro rfl
    exact h.not_mem (by decide) hc
  have hclose : c ≠ ')' := by
    rintro rfl
    exact h.not_mem (by decide) hc
  simp [Query.isPlain, hopen, hclose]

/-- There is nothing to trim around a name. -/
theorem trim_eq (h : IsName name) : trim name.toList = name.toList := by
  have hleft : ([] ++ name.toList).dropWhile isBlank = name.toList :=
    Token.dropWhile_append_stop (by simp) fun c hc => h.isBlank_eq_false (List.mem_of_head? hc)
  have hright : ([] ++ name.toList.reverse).dropWhile isBlank = name.toList.reverse :=
    Token.dropWhile_append_stop (by simp) fun c hc =>
      h.isBlank_eq_false (List.mem_reverse.mp (List.mem_of_head? hc))
  rw [List.nil_append] at hleft hright
  rw [trim, trimLeft, hleft, trimRight, hright, List.reverse_reverse]

end IsName

/-- The name of a token is one that a program can spell. -/
theorem isName_of_token {source : String} {file : Option String} {tokens : List Token}
    (h : Token.tokenize source file = .ok tokens) {t : Token} (ht : t ∈ tokens) {name : String}
    (hkind : t.kind = .identifier name) : IsName name := by
  have hword : t.kind.isWord = true := by
    rw [hkind]
    rfl
  obtain ⟨before, c, cs, width, -, -, hscan⟩ :=
    Token.scan_of_mem_tokensFrom (Token.tokensFrom_of_tokenize h) ht (ne_eof_of_isWord hword)
  obtain ⟨-, run, rest, -, hwidth, hrun, -, hspelled⟩ := Token.exists_run_of_word hscan hword
  obtain rfl := hspelled name hkind
  refine ⟨?_, hrun⟩
  intro hnil
  have hpos := Token.scan_token_width_pos hscan
  rw [hnil, List.length_nil] at hwidth
  omega

/-- A leaf of a program that only a name can write is one. -/
theorem isName_of_mem_leaves {source : String} {file : Option String} {p : Program}
    (h : Syntax.read source file = .ok p) {leaf : Leaf} (hleaf : leaf ∈ p.leaves true) {name : String}
    (hname : ∀ kind, leaf.HasKind kind → kind = .identifier name) : IsName name := by
  obtain ⟨tokens, htokens, hprogram⟩ := Syntax.tokens_of_read h
  have hleaves := Syntax.leaves_of_programOf true (Syntax.ended_tokenize htokens) hprogram
  obtain ⟨t, ht, hwritten⟩ := Leaf.exists_written_of_mem hleaves hleaf
  have hmem := (Syntax.ImportStage.kept_sublist true .outside false tokens).subset ht
  exact isName_of_token htokens hmem (hname _ hwritten.kind)

/-! ### Declarations that can be called -/

/-- The parameters of a function, or of the function that a variable or a constant starts as. -/
def Stmt.parameters? : Stmt → Option (List String)
  | .function _ parameters _ _ _ => some parameters
  | .declare _ _ (some (.lambda parameters _ _)) _ _ => some parameters
  | _ => none

theorem Stmt.cases_of_parameters? {u : Stmt} {parameters : List String} (h : u.parameters? = some parameters) :
    (∃ name body doc loc, u = .function name parameters body doc loc) ∨
      ∃ constant name body lambdaLoc doc loc,
        u = .declare constant name (some (.lambda parameters body lambdaLoc)) doc loc := by
  unfold parameters? at h
  split at h
  · obtain rfl := Option.some.inj h
    exact .inl ⟨_, _, _, _, rfl⟩
  · obtain rfl := Option.some.inj h
    exact .inr ⟨_, _, _, _, _, _, rfl⟩
  · cases h

/-- The name and the parameters of such a declaration are among its leaves. -/
theorem Stmt.leaves_of_parameters? {u : Stmt} {parameters : List String} (h : u.parameters? = some parameters)
    {s : Symbol} (hs : u.ownSymbols.head? = some s) :
    (∃ loc, .name s.name loc ∈ u.leaves true) ∧ ∀ name ∈ parameters, .listed name ∈ u.leaves true := by
  rcases u.cases_of_parameters? h with ⟨_, _, _, _, rfl⟩ | ⟨_, _, _, _, _, _, rfl⟩
  · obtain rfl := Option.some.inj hs
    exact ⟨⟨_, List.mem_cons_self⟩, fun name hname => by simp [hname]⟩
  · obtain rfl := Option.some.inj hs
    exact ⟨⟨_, List.mem_cons_self⟩, fun name hname => by simp [hname]⟩

/-- What is shown for such a declaration: its name and the parameters, or its type with them. -/
theorem Stmt.detail_of_parameters? {u : Stmt} {parameters : List String} (h : u.parameters? = some parameters)
    {s : Symbol} (hs : u.ownSymbols.head? = some s) :
    s.detail = "fn " ++ s.name ++ "(" ++ commaList parameters ++ ")" ∨
      ∃ word ∈ ["constant", "variable"],
        s.detail = "(" ++ (word ++ ": " ++ ("fn(" ++ commaList parameters ++ ")")) ++ ")" := by
  rcases u.cases_of_parameters? h with ⟨_, _, _, _, rfl⟩ | ⟨constant, _, _, _, _, _, rfl⟩
  · obtain rfl := Option.some.inj hs
    exact .inl rfl
  · obtain rfl := Option.some.inj hs
    cases constant with
    | false => exact .inr ⟨"variable", by simp, rfl⟩
    | true => exact .inr ⟨"constant", by simp, rfl⟩

/-! ### Comma lists -/

theorem commaList_singleton (name : String) : commaList [name] = name := by
  simp [commaList]

theorem commaList_cons_cons (name next : String) (rest : List String) :
    (commaList (name :: next :: rest)).toList = name.toList ++ ',' :: ' ' :: (commaList (next :: rest)).toList := by
  simp [commaList, String.intercalate_cons_cons]

namespace Query

/-- A blank at the front is trimmed off the first piece. -/
theorem map_trim_pieces_blank (text : List Char) :
    (pieces ',' (' ' :: text)).map trim = (pieces ',' text).map trim := by
  have hblank : ',' ∉ [' '] := by decide
  obtain ⟨first, rest, htext, hpieces⟩ := pieces_append hblank text
  have hpieces : pieces ',' (' ' :: text) = (' ' :: first) :: rest := hpieces
  rw [hpieces, htext]
  rfl

theorem map_trim_pieces {name : String} {rest : List String} (h : ∀ n ∈ name :: rest, IsName n) :
    (pieces ',' (commaList (name :: rest)).toList).map trim = (name :: rest).map String.toList := by
  induction rest generalizing name with
  | nil =>
      have hname := h name List.mem_cons_self
      rw [commaList_singleton, pieces_of_not_mem (hname.not_mem (by decide)), List.map_singleton, hname.trim_eq]
      rfl
  | cons next rest ih =>
      have hname := h name List.mem_cons_self
      have hbelow := ih fun n hn => h n (List.mem_cons_of_mem name hn)
      rw [commaList_cons_cons, pieces_append_separator (hname.not_mem (by decide)), List.map_cons, hname.trim_eq,
        map_trim_pieces_blank, hbelow]
      rfl

/-- The names in a comma list are those that it was put together from. -/
theorem listedNames_commaList {names : List String} (h : ∀ name ∈ names, IsName name) :
    listedNames (commaList names).toList = names := by
  cases names with
  | nil => rfl
  | cons name rest =>
      have htrim := map_trim_pieces h
      have hsome : (commaList (name :: rest)).toList ≠ [] := by
        intro hnil
        rw [hnil] at htrim
        exact (h name List.mem_cons_self).nonempty (List.cons.inj htrim).1.symm
      have hnames := congrArg (List.map String.ofList) htrim
      rw [List.map_map, List.map_map] at hnames
      rw [listedNames, if_neg (by simpa using hsome)]
      exact hnames.trans (by simp)

/-! ### Lists in parentheses -/

theorem isPlain_of_mem_commaList {names : List String} (h : ∀ name ∈ names, IsName name) :
    ∀ c ∈ (commaList names).toList, isPlain c = true := by
  induction names with
  | nil =>
      intro c hc
      cases hc
  | cons name rest ih =>
      have hname := h name List.mem_cons_self
      have hrest := ih fun n hn => h n (List.mem_cons_of_mem name hn)
      intro c hc
      cases rest with
      | nil =>
          rw [commaList_singleton] at hc
          exact hname.isPlain hc
      | cons next rest =>
          rw [commaList_cons_cons, List.mem_append, List.mem_cons, List.mem_cons] at hc
          rcases hc with hc | rfl | rfl | hc
          · exact hname.isPlain hc
          · rfl
          · rfl
          · exact hrest c hc

theorem innerList?_append {front : List Char} (h : '(' ∉ front) (cs : List Char) :
    innerList? (front ++ cs) = innerList? cs := by
  induction front with
  | nil => rfl
  | cons c front ih =>
      obtain ⟨hc, hfront⟩ : '(' ≠ c ∧ '(' ∉ front := by simpa using h
      rw [List.cons_append, innerList?, ih hfront]
      simp [Ne.symm hc]

/-- A list without parentheses in it is found. -/
theorem innerList?_list {inner : List Char} (h : ∀ c ∈ inner, isPlain c = true) (cs : List Char) :
    innerList? ('(' :: (inner ++ ')' :: cs)) = some inner := by
  have hstop : ∀ c, (')' :: cs).head? = some c → isPlain c = false := by
    intro c hc
    obtain rfl := Option.some.inj hc
    rfl
  rw [innerList?, Token.dropWhile_append_stop h hstop, Token.takeWhile_append_stop h hstop]
  simp

/-- A parenthesis with another one opening before it is closed is passed over. -/
theorem innerList?_nested {front : List Char} (h : ∀ c ∈ front, isPlain c = true) (cs : List Char) :
    innerList? ('(' :: (front ++ '(' :: cs)) = innerList? ('(' :: cs) := by
  have hstop : ∀ c, ('(' :: cs).head? = some c → isPlain c = false := by
    intro c hc
    obtain rfl := Option.some.inj hc
    rfl
  have hopen : '(' ∉ front := fun hmem => Bool.noConfusion (h _ hmem)
  rw [innerList?, Token.dropWhile_append_stop h hstop, innerList?_append hopen]
  simp

theorem mem_of_innerList? {cs inner : List Char} (h : innerList? cs = some inner) : '(' ∈ cs := by
  fun_induction innerList? cs with
  | case1 => cases h
  | case2 c cs hopen =>
      obtain ⟨hc, -⟩ := Bool.and_eq_true_iff.mp hopen
      obtain rfl := of_decide_eq_true hc
      exact List.mem_cons_self
  | case3 c cs hskip ih => exact List.mem_cons_of_mem c (ih h)

/-- The comma list in the detail of a declaration is that of its parameters. -/
theorem innerList?_detail {u : Stmt} {parameters : List String} (h : u.parameters? = some parameters)
    (hparameters : ∀ name ∈ parameters, IsName name) {s : Symbol} (hs : u.ownSymbols.head? = some s)
    (hname : IsName s.name) : innerList? s.detail.toList = some (commaList parameters).toList := by
  have hplain := isPlain_of_mem_commaList hparameters
  rcases u.detail_of_parameters? h hs with hdetail | ⟨word, hword, hdetail⟩
  · have hchars : s.detail.toList =
        ("fn ".toList ++ s.name.toList) ++ '(' :: ((commaList parameters).toList ++ ')' :: []) := by
      simp [hdetail]
    have hfront : '(' ∉ "fn ".toList ++ s.name.toList := by
      rw [List.mem_append]
      rintro (hmem | hmem)
      · exact absurd hmem (by decide)
      · exact hname.not_mem (by decide) hmem
    rw [hchars, innerList?_append hfront, innerList?_list hplain]
  · have hchars : s.detail.toList =
        '(' :: ((word ++ ": fn").toList ++ '(' :: ((commaList parameters).toList ++ ')' :: [')'])) := by
      simp [hdetail]
    have hfront : ∀ c ∈ (word ++ ": fn").toList, isPlain c = true := by
      rcases List.mem_pair.mp hword with rfl | rfl
      · exact List.all_eq_true.mp (by decide)
      · exact List.all_eq_true.mp (by decide)
    rw [hchars, innerList?_nested hfront, innerList?_list hplain]

/-! ### Calls -/

theorem isBlank_of_isWordChar {c : Char} (h : isWordChar c = true) : isBlank c = false := by
  cases hblank : isBlank c with
  | false => rfl
  | true =>
      rw [isWordChar_of_isNameChar (Token.isNameChar_of_isBlank hblank)] at h
      cases h

/-- The nearest opening parenthesis is the last one. -/
theorem openCall?_of_open (before : List Char) {arguments : List Char} (h : '(' ∉ arguments) :
    openCall? (before ++ '(' :: arguments).reverse = some (before.reverse, arguments.count ',') := by
  have hcut : (before ++ '(' :: arguments).reverse = arguments.reverse ++ '(' :: before.reverse := by simp
  have hrun : ∀ c ∈ arguments.reverse, decide (c ≠ '(') = true := by
    intro c hc
    refine decide_eq_true ?_
    rintro rfl
    exact h (List.mem_reverse.mp hc)
  have hstop : ∀ c, ('(' :: before.reverse).head? = some c → decide (c ≠ '(') = false := by
    intro c hc
    obtain rfl := Option.some.inj hc
    rfl
  rw [openCall?, hcut, Token.dropWhile_append_stop hrun hstop, Token.takeWhile_append_stop hrun hstop,
    List.count_reverse]

/-- A word before the parenthesis and the blanks in front of it is what is called, unless it belongs to an owner. -/
theorem calleeBefore?_of_word {front word gap : List Char} (hne : word ≠ [])
    (hword : ∀ c ∈ word, isWordChar c = true) (hgap : ∀ c ∈ gap, isBlank c = true)
    (hfront : ∀ c, front.getLast? = some c → isWordChar c = false ∧ c ≠ '.') :
    calleeBefore? (front ++ word ++ gap).reverse = some (.name word) := by
  have hcut : (front ++ word ++ gap).reverse = gap.reverse ++ (word.reverse ++ front.reverse) := by simp
  have hending : (gap.reverse ++ (word.reverse ++ front.reverse)).dropWhile isBlank =
      word.reverse ++ front.reverse := by
    refine Token.dropWhile_append_stop (fun c hc => hgap c (List.mem_reverse.mp hc)) fun c hc => ?_
    obtain ⟨last, more, hlast⟩ := List.exists_cons_of_ne_nil (mt List.reverse_eq_nil_iff.mp hne)
    rw [hlast] at hc
    obtain rfl := Option.some.inj hc
    have hmem : last ∈ word := List.mem_reverse.mp (hlast ▸ List.mem_cons_self)
    exact isBlank_of_isWordChar (hword last hmem)
  have hbefore : ∀ c, front.reverse.head? = some c → isWordChar c = false := by
    intro c hc
    rw [List.head?_reverse] at hc
    exact (hfront c hc).1
  have hletters : ∀ c ∈ word.reverse, isWordChar c = true := fun c hc => hword c (List.mem_reverse.mp hc)
  have hfound : wordBefore? (word.reverse ++ front.reverse) = some word := by
    rw [wordBefore?, Token.takeWhile_append_stop hletters hbefore]
    simp [hne]
  rw [calleeBefore?, hcut, hending, hfound]
  simp only [Option.bind_eq_bind, Option.bind_some, Token.dropWhile_append_stop hletters hbefore]
  split
  · rename_i rest hdot
    have hlast : front.getLast? = some '.' := by
      rw [← List.head?_reverse, hdot]
      rfl
    exact absurd rfl (hfront '.' hlast).2
  · rfl

/-- A signature has what the detail of the symbol lists. -/
theorem Snapshot.signature_eq {s : Snapshot} {line character : Int} (hprogram : s.program.isNone = false)
    {before : List Char} {commas : Nat}
    (hopen : openCall? (s.text.take (Position.offsetOf s.text line character)).reverse = some (before, commas))
    {callee : Callee} (hcallee : calleeBefore? before = some callee) {symbol : Symbol}
    (hsymbol : s.callable? callee = some symbol) {inner : List Char}
    (hinner : innerList? symbol.detail.toList = some inner) :
    s.signature line character = some ⟨symbol.detail, symbol.documentation, listedNames inner, commas⟩ := by
  have hlist : '(' ∈ symbol.detail.toList := mem_of_innerList? hinner
  simp [signature, hprogram, hopen, hcallee, hsymbol, hinner, hlist]

/-- Let a program be read from a text, and let the first symbol with a name be that of a function, or of a variable or
a constant that starts as a function.  Let a text have this name before a position, as a word of its own that no dot
stands before, and behind it, after any blanks, an opening parenthesis that is the last one.  The signature at that
position has the detail and the documentation of the symbol, the parameters that were declared, in their order, and
the number of the commas since the parenthesis. -/
theorem Snapshot.signature_of_call {earlier : String} {file : Option String} {p : Program}
    (hread : Syntax.read earlier file = .ok p) {statement : Stmt} (hstatement : statement ∈ p.statements)
    {parameters : List String} (hparameters : statement.parameters? = some parameters) {symbol : Symbol}
    (hsymbol : statement.ownSymbols.head? = some symbol) {name : String}
    (hfirst : Symbol.find? p.symbols name = some symbol) (hname : ∀ c ∈ name.toList, isWordChar c = true)
    {source : String} {line character : Int} {front gap arguments : List Char}
    (hbefore : source.toList.take (Position.offsetOf source.toList line character) =
      front ++ name.toList ++ gap ++ '(' :: arguments)
    (hfront : ∀ c, front.getLast? = some c → isWordChar c = false ∧ c ≠ '.')
    (hgap : ∀ c ∈ gap, isBlank c = true) (harguments : '(' ∉ arguments) (uri : String) :
    (⟨source, uri, some p⟩ : Snapshot).signature line character =
      some ⟨symbol.detail, symbol.documentation, parameters, arguments.count ','⟩ := by
  have hleaves := (walkOf_leaves_sublist p.body statement hstatement).subset
  obtain ⟨⟨loc, hloc⟩, hlist⟩ := statement.leaves_of_parameters? hparameters hsymbol
  have hnamed : IsName symbol.name := isName_of_mem_leaves hread (hleaves hloc) fun _ h => h
  have hlisted : ∀ n ∈ parameters, IsName n := fun n hn =>
    isName_of_mem_leaves hread (hleaves (hlist n hn)) fun _ h => h
  have hinner := innerList?_detail hparameters hlisted hsymbol hnamed
  obtain rfl : symbol.name = name := (Symbol.find?_eq_some hfirst).1
  have hopen := openCall?_of_open (front ++ symbol.name.toList ++ gap) harguments
  rw [← hbefore] at hopen
  have hcallee := calleeBefore?_of_word hnamed.nonempty hname hgap hfront
  have hmeans : (⟨source, uri, some p⟩ : Snapshot).callable? (.name symbol.name.toList) = some symbol :=
    resolve?_of_find? source uri hfirst
  have hsignature := signature_eq (s := ⟨source, uri, some p⟩) rfl hopen hcallee hmeans hinner
  rwa [listedNames_commaList hlisted] at hsignature

/-- A constant that starts as a function, called with a blank before the parenthesis. -/
theorem Snapshot.signature_of_call_constant :
    ∃ p, Syntax.read "const g = fn(a, b) \x7b\x7d" none = .ok p ∧
      (⟨"x + g\t(1, 2", "m", some p⟩ : Snapshot).signature 0 99 =
        some ⟨"(constant: fn(a, b))", none, ["a", "b"], 1⟩ := by
  have hstatements : ((Syntax.read "const g = fn(a, b) \x7b\x7d" none).toOption.map fun p =>
      p.statements.map Stmt.parameters?) = some [some ["a", "b"]] := by
    decide +kernel
  have hsymbols : ((Syntax.read "const g = fn(a, b) \x7b\x7d" none).toOption.map fun p =>
      p.symbols.map fun s => (s.name, s.detail, s.documentation)) = some [("g", "(constant: fn(a, b))", none)] := by
    decide +kernel
  cases hread : Syntax.read "const g = fn(a, b) \x7b\x7d" none with
  | error failure =>
      rw [hread] at hstatements
      cases hstatements
  | ok p =>
      rw [hread] at hstatements hsymbols
      obtain ⟨u, hu, hparameters⟩ := List.map_eq_singleton_iff.mp (Option.some.inj hstatements)
      obtain ⟨g, hg, hshown⟩ := List.map_eq_singleton_iff.mp (Option.some.inj hsymbols)
      simp only [Prod.mk.injEq] at hshown
      obtain ⟨hname, hdetail, hdoc⟩ := hshown
      have hown : u.ownSymbols.head? = some g := by
        rw [Program.symbols_eq, hu, List.flatMap_singleton] at hg
        rw [hg]
        rfl
      have hfirst : Symbol.find? p.symbols "g" = some g := by
        simp [hg, Symbol.find?, hname]
      have hbefore : "x + g\t(1, 2".toList.take (Position.offsetOf "x + g\t(1, 2".toList 0 99) =
          "x + ".toList ++ "g".toList ++ ['\t'] ++ '(' :: "1, 2".toList := by
        decide
      have hsignature := signature_of_call hread (hu ▸ List.mem_singleton_self u) hparameters hown hfirst
        (List.all_eq_true.mp (by decide)) hbefore (by simp [isWordChar]) (List.all_eq_true.mp (by decide))
        (by decide) "m"
      rw [hdetail, hdoc] at hsignature
      exact ⟨p, rfl, hsignature⟩

end Query

end ScriptLens
