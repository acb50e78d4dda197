import ScriptLens.Proofs.Syntax.Leaves

/-!
# A program from left to right

Listed from left to right, a program has the values of its literals, names and operators in the order of the text,
and of reserved words where they are names of members.  Nothing is lost, repeated or moved, and what the tree has a
location for stands where its own token does.  An import takes a name once, so a text that repeats one in a list is
left out here.

Main statement: `listing_of_read`.
-/

namespace ScriptLens

/-- What a literal, a name or an operator says. -/
inductive Content where
  | number (value : Binary64)
  | text (value : String)
deriving DecidableEq

/-- What a token says; the end of the text says nothing. -/
def Kind.content? : Kind → Option Content
  | .eof => none
  | .number value => some (.number value)
  | .string value => some (.text value)
  | .identifier name => some (.text name)
  | .keyword word => some (.text word.spelling)
  | .mark m => some (.text m.spelling)
  | .doc text => some (.text text)

/-- What a leaf of a tree says. -/
def Leaf.content : Leaf → Content
  | .number n _ => .number n
  | .string s _ => .text s
  | .name n _ => .text n
  | .key k _ => .text k
  | .member n _ => .text n
  | .listed n => .text n
  | .source path => .text path
  | .unary op _ => .text op.mark.spelling
  | .binary op => .text op.mark.spelling
  | .assign => .text Mark.assign.spelling
  | .importWord _ => .text Keyword.importWord.spelling

theorem Leaf.WrittenBy.content {leaf : Leaf} {t : Token} (h : leaf.WrittenBy t) :
    t.kind.content? = some leaf.content := by
  have hkind := h.kind
  cases leaf with
  | key k loc =>
      rcases hkind with hkind | hkind <;> rw [hkind] <;> rfl
  | member name loc =>
      rcases hkind with hkind | ⟨word, hkind, rfl⟩ <;> rw [hkind] <;> rfl
  | _ =>
      rw [show t.kind = _ from hkind]
      rfl

theorem Leaf.contents_of_writtenBy {leaves : List Leaf} {tokens : List Token}
    (h : List.Forall₂ Leaf.WrittenBy leaves tokens) :
    leaves.map (fun leaf => some leaf.content) = tokens.map fun t => t.kind.content? := by
  induction h with
  | nil => rfl
  | cons hleaf hrest ih => rw [List.map_cons, List.map_cons, ih, hleaf.content]

/-- A program from left to right. -/
def Program.listing (p : Program) : List Leaf :=
  p.leaves false

namespace Syntax

/-! ### The names of imports -/

/-- The names at the start of a list that commas divide. -/
def leadingNames : List Kind → List String
  | .identifier name :: .mark .comma :: rest => name :: leadingNames rest
  | .identifier name :: _ => [name]
  | _ => []

/-- The lists of names in the braces of imports.  The word behind a dot starts no import. -/
def importLists (dot : Bool) : List Kind → List (List String)
  | [] => []
  | kind :: rest =>
      (if kind = .keyword .importWord ∧ dot = false ∧ rest.head? = some (.mark .openBrace) then
        [leadingNames rest.tail] else []) ++ importLists (kind = .mark .dot) rest

/-- The tokens that a tree keeps: literals, names, operators, and reserved words right behind a dot. -/
def keptTokens (dot : Bool) : List Token → List Token
  | [] => []
  | t :: ts => (if t.kind.isKept false dot then [t] else []) ++ keptTokens (t.kind = .mark .dot) ts

/-- The names that follow are new to the import. -/
def ImportStage.Fresh (kinds : List Kind) : ImportStage → Prop
  | .outside => True
  | .word => kinds.head? = some (.mark .openBrace) → (leadingNames kinds.tail).Nodup
  | .opened names => (names ++ leadingNames kinds).Nodup
  | .named names => kinds.head? = some (.mark .comma) → (names ++ leadingNames kinds.tail).Nodup

theorem leadingNames_identifier (name : String) (kinds : List Kind) :
    leadingNames (.identifier name :: kinds) =
      name :: if kinds.head? = some (.mark .comma) then leadingNames kinds.tail else [] := by
  by_cases hcomma : kinds.head? = some (.mark .comma)
  · obtain ⟨rest, rfl⟩ := List.head?_eq_some_iff.mp hcomma
    rfl
  · rw [if_neg hcomma, leadingNames]
    rintro rest rfl
    exact hcomma rfl

/-- A name that follows is not one that the import has. -/
theorem ImportStage.Fresh.not_repeats {stage : ImportStage} {kind : Kind} {kinds : List Kind}
    (h : stage.Fresh (kind :: kinds)) : stage.repeats kind = false := by
  cases stage with
  | opened names =>
      by_contra hrepeats
      obtain ⟨name, hname, hkind⟩ := List.any_eq_true.mp (Bool.of_not_eq_false hrepeats)
      obtain rfl := of_decide_eq_true hkind
      rw [Fresh, leadingNames_identifier] at h
      exact (List.nodup_append.mp h).2.2 name hname name List.mem_cons_self rfl
  | _ => rfl

/-- One more token leaves the names behind it new to the import. -/
theorem ImportStage.Fresh.next {stage : ImportStage} {dot : Bool} {kind : Kind} {kinds : List Kind}
    (h : stage.Fresh (kind :: kinds)) (hlists : ∀ names ∈ importLists dot (kind :: kinds), names.Nodup) :
    (stage.next dot kind).Fresh kinds := by
  have hrepeats := h.not_repeats
  cases stage with
  | outside =>
      rw [ImportStage.next]
      split
      · rename_i hword
        intro hbrace
        apply hlists
        rw [importLists, if_pos ⟨hword.1, hword.2, hbrace⟩]
        exact List.mem_append_left _ List.mem_cons_self
      · trivial
  | word =>
      rw [ImportStage.next]
      split
      · rename_i hbrace
        subst hbrace
        exact h rfl
      · trivial
  | opened names =>
      cases kind with
      | identifier name =>
          have hname : name ∉ names := by
            simpa [List.forall_mem_ne] using hrepeats
          intro hcomma
          rw [Fresh, leadingNames_identifier, if_pos hcomma] at h
          simpa [addName, hname] using h
      | _ => trivial
  | named names =>
      rw [ImportStage.next]
      split
      · rename_i hcomma
        subst hcomma
        exact h rfl
      · trivial

/-- Where no import repeats a name, no name is left out. -/
theorem ImportStage.Fresh.kept_eq_keptTokens {stage : ImportStage} {dot : Bool} {tokens : List Token}
    (h : stage.Fresh (tokens.map Token.kind))
    (hlists : ∀ names ∈ importLists dot (tokens.map Token.kind), names.Nodup) :
    stage.kept false dot tokens = keptTokens dot tokens := by
  induction tokens generalizing stage dot with
  | nil => rfl
  | cons t ts ih =>
      have hbehind : ∀ names ∈ importLists (t.kind = .mark .dot) (ts.map Token.kind), names.Nodup := by
        intro names hnames
        exact hlists names (List.mem_append_right _ hnames)
      rw [kept, keptTokens, ih (h.next hlists) hbehind, keeps, h.not_repeats, Bool.not_false, Bool.and_true]

/-! ### Programs -/

/-- A program lists what its tokens say.  Where no import list repeats a name, the contents of the program from left
to right are those of the literals, names, operators and member names in the text, and each leaf that has a location
has that of the token that writes it. -/
theorem listing_of_read {source : String} {file : Option String} {tokens : List Token} {p : Program}
    (htokens : Token.tokenize source file = .ok tokens) (hread : read source file = .ok p)
    (himports : ∀ names ∈ importLists false (tokens.map Token.kind), names.Nodup) :
    p.listing.map (fun leaf => some leaf.content) = (keptTokens false tokens).map (fun t => t.kind.content?) ∧
      List.Forall₂ Leaf.WrittenBy p.listing (keptTokens false tokens) := by
  obtain ⟨tokens', htokens', hprogram⟩ := tokens_of_read hread
  obtain rfl : tokens' = tokens := Except.ok.inj (htokens'.symm.trans htokens)
  have hwritten := leaves_of_programOf false (ended_tokenize htokens) hprogram
  have hfresh : ImportStage.outside.Fresh (tokens'.map Token.kind) := trivial
  rw [hfresh.kept_eq_keptTokens himports] at hwritten
  exact ⟨Leaf.contents_of_writtenBy hwritten, hwritten⟩

/-- An import of two names, and a declaration with a member that is called as a word is spelled. -/
theorem listing_of_read_member_word :
    ∃ tokens p,
      Token.tokenize "import \x7b a, b \x7d from 'm'; const x = -a.if + f(\x7b k: fn(y) \x7b\x7d \x7d)" none =
        .ok tokens ∧
      read "import \x7b a, b \x7d from 'm'; const x = -a.if + f(\x7b k: fn(y) \x7b\x7d \x7d)" none = .ok p ∧
      importLists false (tokens.map Token.kind) = [["a", "b"]] ∧
      p.listing.map Leaf.content =
        ["a", "b", "m", "x", "=", "-", "a", "if", "+", "f", "k", "y"].map Content.text ∧
      List.Forall₂ Leaf.WrittenBy p.listing (keptTokens false tokens) := by
  have hlists : (Token.tokenize "import \x7b a, b \x7d from 'm'; const x = -a.if + f(\x7b k: fn(y) \x7b\x7d \x7d)"
      none).toOption.map (fun tokens => importLists false (tokens.map Token.kind)) = some [["a", "b"]] := by
    decide +kernel
  have hcontents : (read "import \x7b a, b \x7d from 'm'; const x = -a.if + f(\x7b k: fn(y) \x7b\x7d \x7d)"
      none).toOption.map (fun p => p.listing.map Leaf.content) =
        some (["a", "b", "m", "x", "=", "-", "a", "if", "+", "f", "k", "y"].map Content.text) := by
    decide +kernel
  cases htokens : Token.tokenize "import \x7b a, b \x7d from 'm'; const x = -a.if + f(\x7b k: fn(y) \x7b\x7d \x7d)"
      none with
  | error failure =>
      rw [htokens] at hlists
      cases hlists
  | ok tokens =>
      rw [htokens] at hlists
      replace hlists := Option.some.inj hlists
      cases hread : read "import \x7b a, b \x7d from 'm'; const x = -a.if + f(\x7b k: fn(y) \x7b\x7d \x7d)" none with
      | error failure =>
          rw [hread] at hcontents
          cases hcontents
      | ok p =>
          rw [hread] at hcontents
          have hdistinct : ∀ names ∈ importLists false (tokens.map Token.kind), names.Nodup := by
            simp [hlists]
          exact ⟨tokens, p, rfl, rfl, hlists, Option.some.inj hcontents,
            (listing_of_read htokens hread hdistinct).2⟩

end Syntax

end ScriptLens
