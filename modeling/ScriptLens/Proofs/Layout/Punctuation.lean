import ScriptLens.Proofs.Layout.DocComments
import ScriptLens.Proofs.Syntax.Recent

/-!
# A text and its formatted text, token by token

In a text with no line left to break at a brace, the formatter moves blanks and adds semicolons.  If the spacing
rules leave its strings alone, then the formatted text is cut into the same tokens, with a semicolon more wherever
one was added behind a token or a block comment.  Only documentation may say something else, and only where nothing
takes it.

Main statement: `Between.exists_tokens`.
-/

namespace ScriptLens.Token

open Syntax

/-- The kinds of the tokens of a text do not depend on where the text stands. -/
theorem exists_tokensFrom {loc : Location} {text : List Char} {tokens : List Token}
    (h : tokensFrom 0 loc text = .ok tokens) (loc' : Location) :
    ∃ tokens', tokensFrom 0 loc' text = .ok tokens' ∧ tokens'.map Token.kind = tokens.map Token.kind := by
  induction text using cut_induction generalizing loc loc' tokens with
  | nil =>
      obtain rfl := Except.ok.inj h
      exact ⟨_, rfl, rfl⟩
  | gap c cs width hscan ih =>
      rw [tokensFrom_gap hscan] at h ⊢
      exact ih h _
  | token c cs kind width hscan ih =>
      obtain ⟨rest, rfl, hrest⟩ := exists_of_tokensFrom_token hscan h
      obtain ⟨rest', hrest', hkinds⟩ := ih hrest (loc'.after ((c :: cs).take width))
      refine ⟨⟨kind, loc'⟩ :: rest', ?_, by simp [hkinds]⟩
      rw [tokensFrom_token hscan, hrest']
      rfl
  | fault c cs cause before hscan => simp [tokensFrom, hscan] at h
  | valueless c cs numeral hscan => simp [tokensFrom, hscan] at h

/-- Whether a declaration follows that takes the documentation before it. -/
def isTaken (behind : List Char) : Bool :=
  match tokensFrom 0 (.start none) behind with
  | .ok tokens => takesDoc (tokens.map Token.kind)
  | .error _ => true

theorem takesDoc_of_not_isTaken {behind : List Char} (h : isTaken behind = false) {loc : Location}
    {tokens : List Token} (htokens : tokensFrom 0 loc behind = .ok tokens) :
    takesDoc (tokens.map Token.kind) = false := by
  obtain ⟨tokens', htokens', hkinds⟩ := exists_tokensFrom htokens (.start none)
  rw [isTaken, htokens'] at h
  exact hkinds ▸ h

end ScriptLens.Token

namespace ScriptLens.Layout

open Text Token Syntax

variable {added : Nat → Prop} {c : Char} {cs out : List Char}

/-! ### What the formatter has to leave alone -/

/-- Whether the spacing rules leave the string literal at the front of a text alone, and what the documentation
there says if a declaration takes it, with semicolons added at the given places.  Other comments, and documentation
that nothing takes, may be changed. -/
def isInert (semicolons : List Nat) : List Char → Bool
  | [] => true
  | c :: cs =>
      match scan c cs with
      | .token (.string _) width => normalize ((c :: cs).take width) = (c :: cs).take width
      | .token (.doc _) width =>
          !isTaken ((c :: cs).drop width) ||
            (docBlock (c :: cs)).all keepsDocLine &&
            semicolons.all fun m => decide ((visible ((c :: cs).drop width)).length ≤ m →
              (visible (c :: cs)).length ≤ m)
      | _ => true

/-- The place behind the token or block comment at the front of a text, by the number of visible characters
behind it.  A place behind documentation is none: what is added there is said by it. -/
def openPlace? : List Char → Option Nat
  | [] => none
  | c :: cs =>
      match scan c cs with
      | .token kind width =>
          if kind.doc?.isNone then some (visible ((c :: cs).drop width)).length else none
      | .gap width =>
          if c = '/' ∧ cs.head? = some '*' then some (visible ((c :: cs).drop width)).length else none
      | _ => none

/-- The places of a text behind tokens and block comments.  What is added there is no part of a comment. -/
def openPlaces (text : List Char) : List Nat :=
  (places text).filterMap openPlace?

/-- Whether a string literal or a comment up to the end of a line starts a text. -/
def startsOnLine : List Char → Bool
  | '/' :: '/' :: _ => true
  | c :: _ => c = doubleQuote || c = apostrophe
  | [] => false

/-! ### One scan -/

/-- What is found in place of a token with the given text behind it. -/
inductive Found (behind : List Char) : Kind → Kind → Prop
  | same (kind : Kind) : Found behind kind kind
  | idle (text text' : String) (h : isTaken behind = false) : Found behind (.doc text) (.doc text')

theorem Behind.slash (h : Behind added '/' cs out) (hslash : cs.head? ≠ some '/')
    (hstar : cs.head? ≠ some '*') :
    scan '/' out = .token (.mark .slash) 1 ∧ Between added cs out := by
  have hmark : ∀ {ds : List Char}, scanMark '/' ds = .token (.mark .slash) 1 := by
    intro ds
    have hpair : ds.head?.bind (pairMark? '/') = none := by
      cases ds.head? <;> simp [pairMark?]
    rw [scanMark, hpair]
    rfl
  refine ⟨scan_slash (fun hd => hslash ?_) fun hd => hstar ?_, ?_⟩
  · exact (h.loose hd).resolve_right (by decide)
  · exact (h.loose hd).resolve_right (by decide)
  · exact (h.mark hmark).2

/-- A token that is no documentation is found where it was. -/
theorem Behind.token_of_not_doc {semicolons : List Nat} (h : Behind added c cs out)
    (v : isBlank c = false) (hbraces : startsOnLine (c :: cs) = true → breakAtBraces (c :: cs) = c :: cs)
    {kind : Kind} {width : Nat} (hscan : scan c cs = .token kind width) (hkind : kind.doc? = none)
    (hinert : isInert semicolons (c :: cs) = true) :
    scan c out = .token kind width ∧ Between added ((c :: cs).drop width) ((c :: out).drop width) := by
  by_cases hc : c = '/'
  · subst hc
    have hslash : cs.head? ≠ some '/' := by
      intro hslash
      obtain ⟨ds, rfl⟩ := List.head?_eq_some_iff.mp hslash
      by_cases hdoc : ds.head? = some '/'
      · obtain ⟨said, rfl⟩ := List.head?_eq_some_iff.mp hdoc
        obtain ⟨text, rfl⟩ := scanDoc_kind (show scanDoc _ = .token kind width from hscan)
        cases hkind
      · rw [scan_line hdoc] at hscan
        cases hscan
    have hstar : cs.head? ≠ some '*' := by
      intro hstar
      obtain ⟨ds, rfl⟩ := List.head?_eq_some_iff.mp hstar
      have hnospace : isSpace '/' = false := by decide
      simp only [scan, hnospace] at hscan
      cases hwidth : blockCommentWidth? ds <;> simp [hwidth] at hscan
    rw [scan_slash hslash hstar] at hscan
    obtain ⟨rfl, rfl⟩ := Scan.token.inj hscan
    exact h.slash hslash hstar
  · have hnospace : isSpace c = false := by
      cases hc : isSpace c with
      | false => rfl
      | true =>
          rw [isBlank_of_isSpace hc] at v
          cases v
    rw [isInert, hscan] at hinert
    rw [scan_of_ne_slash hc, hnospace, if_neg (by decide)] at hscan
    rw [scan_of_ne_slash hc, hnospace, if_neg (by decide)]
    split at hscan
    · rename_i hquote
      rw [if_pos hquote]
      have hquotes : c = doubleQuote ∨ c = apostrophe := by simpa using hquote
      obtain ⟨value, rfl⟩ := scanString_kind hscan
      refine h.string hquotes (hbraces ?_) hscan (by simpa using hinert)
      rcases hquotes with rfl | rfl <;> rfl
    · rename_i hquote
      rw [if_neg hquote]
      split at hscan
      · rename_i hdigit
        rw [if_pos hdigit]
        exact h.numeral hdigit hscan
      · rename_i hdigit
        rw [if_neg hdigit]
        split at hscan
        · rename_i hname
          rw [if_pos hname]
          exact h.word hname hscan
        · rename_i hname
          rw [if_neg hname]
          exact h.mark hscan

/-- Documentation is found where it was.  A semicolon behind it belongs to it. -/
theorem Behind.token_doc {semicolons : List Nat} (h : Behind added c cs out)
    (hbraces : startsOnLine (c :: cs) = true → breakAtBraces (c :: cs) = c :: cs) {text : String}
    {width : Nat} (hscan : scan c cs = .token (.doc text) width)
    (hadded : ∀ m, added m → m ∈ semicolons) (hinert : isInert semicolons (c :: cs) = true)
    (hspace : ∀ d ∈ ((c :: cs).drop width).takeWhile isBlank, isSpace d = true) :
    ∃ kind' width', scan c out = .token kind' width' ∧
      Found ((c :: cs).drop width) (.doc text) kind' ∧
      Between (fun m => added m ∧ m ≠ (visible ((c :: cs).drop width)).length) ((c :: cs).drop width)
        ((c :: out).drop width') := by
  obtain ⟨said, rfl, rfl, hdoc⟩ : ∃ said, c = '/' ∧ cs = '/' :: '/' :: said ∧
      scanDoc ('/' :: '/' :: '/' :: said) = .token (.doc text) width := by
    rcases scan_token_cases hscan with ⟨rest, rfl, rfl, hdoc⟩ | ⟨-, hscan⟩ | ⟨-, hscan⟩ | ⟨-, hscan⟩ | hscan
    · exact ⟨rest, rfl, rfl, hdoc⟩
    · obtain ⟨value, hvalue⟩ := scanString_kind hscan
      cases hvalue
    · obtain ⟨value, hvalue⟩ := scanNumeral_kind hscan
      cases hvalue
    · rcases scanWord_kind hscan with ⟨word, hword⟩ | ⟨name, hname⟩
      · cases hword
      · cases hname
    · obtain ⟨m, hm⟩ := scanMark_kind hscan
      cases hm
  obtain ⟨text', width', hscan', hbetween, hkept⟩ := h.doc (hbraces rfl) hdoc hspace
  refine ⟨.doc text', width', hscan', ?_, hbetween⟩
  cases htaken : isTaken (('/' :: '/' :: '/' :: said).drop width) with
  | false => exact .idle text text' htaken
  | true =>
      rw [isInert, hscan] at hinert
      simp only [htaken, Bool.not_true, Bool.false_or, Bool.and_eq_true, List.all_eq_true,
        decide_eq_true_eq] at hinert
      obtain rfl : docWidth ('/' :: '/' :: '/' :: said) = width := by
        rw [scanDoc_eq] at hdoc
        exact (Scan.token.inj hdoc).2
      rw [hkept ⟨hinert.1, fun m hm => hinert.2 m (hadded m hm)⟩]
      exact .same _

/-- A token is found where it was, up to documentation that nothing takes. -/
theorem Behind.token {semicolons : List Nat} (h : Behind added c cs out) (v : isBlank c = false)
    (hbraces : startsOnLine (c :: cs) = true → breakAtBraces (c :: cs) = c :: cs) {kind : Kind}
    {width : Nat} (hscan : scan c cs = .token kind width) (hadded : ∀ m, added m → m ∈ semicolons)
    (hinert : isInert semicolons (c :: cs) = true)
    (hspace : ∀ d ∈ ((c :: cs).drop width).takeWhile isBlank, isSpace d = true) :
    ∃ kind' width' added', scan c out = .token kind' width' ∧ Found ((c :: cs).drop width) kind kind' ∧
      Between added' ((c :: cs).drop width) ((c :: out).drop width') ∧
      ∀ m, added' m → added m ∧
        (m = (visible ((c :: cs).drop width)).length → openPlace? (c :: cs) = some m) := by
  cases hkind : kind.doc? with
  | none =>
      obtain ⟨hscan', hbetween⟩ := h.token_of_not_doc v hbraces hscan hkind hinert
      refine ⟨kind, width, added, hscan', .same kind, hbetween, fun m hm => ⟨hm, fun hplace => ?_⟩⟩
      rw [openPlace?, hscan, hplace]
      exact if_pos (by rw [hkind]; rfl)
  | some text =>
      obtain rfl : kind = .doc text := by
        cases kind <;> simp_all [Kind.doc?]
      obtain ⟨kind', width', hscan', hfound, hbetween⟩ := h.token_doc hbraces hscan hadded hinert hspace
      refine ⟨kind', width', _, hscan', hfound, hbetween, fun m hm => ⟨hm.1, fun hplace => ?_⟩⟩
      exact absurd hplace hm.2

/-- A comment is passed over where it was.  A semicolon behind a line comment belongs to it. -/
theorem Behind.gap (h : Behind added c cs out) (v : isBlank c = false)
    (hbraces : startsOnLine (c :: cs) = true → breakAtBraces (c :: cs) = c :: cs) {width : Nat}
    (hscan : scan c cs = .gap width) :
    ∃ width' added', scan c out = .gap width' ∧
      Between added' ((c :: cs).drop width) ((c :: out).drop width') ∧
      ∀ m, added' m → added m ∧
        (m = (visible ((c :: cs).drop width)).length → openPlace? (c :: cs) = some m) := by
  rcases scan_gap_cases hscan with ⟨hspace, -⟩ | ⟨rest, rfl, rfl, hdoc, rfl⟩ |
    ⟨rest, inner, rfl, rfl, hinner, rfl⟩
  · rw [isBlank_of_isSpace hspace] at v
    cases v
  · obtain ⟨width', hscan', hbetween⟩ := h.line hdoc (hbraces rfl)
    refine ⟨width', _, hscan', hbetween, fun m hm => ⟨hm.1, fun hplace => ?_⟩⟩
    exact absurd hplace hm.2
  · obtain ⟨width', hscan', hbetween⟩ := h.block hinner
    refine ⟨width', added, hscan', hbetween, fun m hm => ⟨hm, fun hplace => ?_⟩⟩
    rw [openPlace?, hscan, hplace]
    rfl

/-! ### Blanks between tokens -/

/-- In a text that can be cut, nothing but spaces separates tokens. -/
theorem isSpace_of_tokensFrom {g : List Char} (hg : ∀ d ∈ g, isBlank d = true) {loc : Location}
    {text : List Char} {tokens : List Token} (h : tokensFrom 0 loc (g ++ text) = .ok tokens) :
    ∀ d ∈ g, isSpace d = true := by
  induction g generalizing loc with
  | nil => simp
  | cons d g ih =>
      have hd : isSpace d = true := by
        cases hspace : isSpace d with
        | true => rfl
        | false =>
            obtain ⟨cause, before, hfault⟩ :=
              scan_of_isBlank (hg d List.mem_cons_self) hspace (g ++ text)
            simp [tokensFrom, hfault] at h
      have hscan : scan d (g ++ text) = .gap 1 := by simp [scan, hd]
      rw [List.cons_append, tokensFrom_gap hscan] at h
      intro e he
      rcases List.mem_cons.mp he with rfl | he
      · exact hd
      · exact ih (fun e he => hg e (List.mem_cons_of_mem d he)) h e he

theorem isSpace_of_takeWhile {loc : Location} {text : List Char} {tokens : List Token}
    (h : tokensFrom 0 loc text = .ok tokens) : ∀ d ∈ text.takeWhile isBlank, isSpace d = true := by
  rw [← List.takeWhile_append_dropWhile (p := isBlank) (l := text)] at h
  exact isSpace_of_tokensFrom (fun d hd => List.all_eq_true.mp List.all_takeWhile d hd) h

theorem places_spaces {g : List Char} (hg : ∀ d ∈ g, isSpace d = true) (text : List Char) :
    ∀ rest ∈ places text, rest ∈ places (g ++ text) := by
  induction g with
  | nil => exact fun rest h => h
  | cons d g ih =>
      intro rest hrest
      have hscan : scan d (g ++ text) = .gap 1 := by
        simp [scan, hg d List.mem_cons_self]
      rw [List.cons_append, places_gap hscan]
      exact List.mem_cons_of_mem _ (ih (fun e he => hg e (List.mem_cons_of_mem d he)) rest hrest)

/-- A scan starts at the rest of the text. -/
theorem suffix_of_mem_places {text rest : List Char} (h : rest ∈ places text) : rest <:+ text := by
  have hbehind : ∀ {c : Char} {cs : List Char} {width : Nat},
      (rest ∈ places ((c :: cs).drop width) → rest <:+ (c :: cs).drop width) →
      rest ∈ (c :: cs) :: places ((c :: cs).drop width) → rest <:+ c :: cs := by
    intro c cs width ih hmem
    rcases List.mem_cons.mp hmem with rfl | hmem
    · exact List.suffix_refl _
    · exact (ih hmem).trans (List.drop_suffix width _)
  induction text using cut_induction with
  | nil => cases h
  | gap c cs width hscan ih =>
      rw [places_gap hscan] at h
      exact hbehind ih h
  | token c cs kind width hscan ih =>
      rw [places_token hscan] at h
      exact hbehind ih h
  | fault c cs cause before hscan =>
      obtain rfl : rest = c :: cs := by simpa [places, placesFrom, hscan] using h
      exact List.suffix_refl _
  | valueless c cs numeral hscan =>
      obtain rfl : rest = c :: cs := by simpa [places, placesFrom, hscan] using h
      exact List.suffix_refl _

/-! ### All scans -/

/-- The number of visible characters of a text from a token on. -/
def reach (source : List Char) (t : Token) : Nat :=
  (visible (source.drop t.location.offset.toNat)).length

/-- The tokens of a text and the same tokens with semicolons between them, up to what documentation says that
nothing takes.  The number says how many visible characters are left where the tokens start, and semicolons are
added only where that is allowed. -/
inductive Punctuated (source : List Char) (allowed : Nat → Prop) :
    Nat → List Token → List Token → Prop
  | done {n : Nat} {t t' : Token} (hkind : t'.kind = t.kind) (hreach : reach source t ≤ n) :
      Punctuated source allowed n [t] [t']
  | keep {n m : Nat} {t t' : Token} {ts ts' : List Token} (hkind : t'.kind = t.kind)
      (hreach : reach source t ≤ n) (hbelow : m < reach source t)
      (hrest : Punctuated source allowed m ts ts') :
      Punctuated source allowed n (t :: ts) (t' :: ts')
  | reword {n m : Nat} {t t' : Token} {text text' : String} {ts ts' : List Token}
      (ht : t.kind = .doc text) (ht' : t'.kind = .doc text')
      (htakes : takesDoc (ts.map Token.kind) = false) (hreach : reach source t ≤ n)
      (hbelow : m < reach source t) (hrest : Punctuated source allowed m ts ts') :
      Punctuated source allowed n (t :: ts) (t' :: ts')
  | add {n : Nat} {t' : Token} {ts ts' : List Token} (hkind : t'.kind = .mark .semicolon)
      (hallowed : allowed n) (hrest : Punctuated source allowed n ts ts') :
      Punctuated source allowed n ts (t' :: ts')
  | pass {n m : Nat} {ts ts' : List Token} (hle : m ≤ n)
      (hrest : Punctuated source allowed m ts ts') :
      Punctuated source allowed n ts ts'

variable {source : List Char} {allowed : Nat → Prop}

/-- What is written at the end of a row is a semicolon or nothing. -/
theorem RowEnd.tokens {p : Prop} {ending rest : List Char} (hend : RowEnd p ending) {n : Nat}
    (hallowed : p → allowed n) {ts : List Token}
    (h : ∀ loc, ∃ ts', tokensFrom 0 loc rest = .ok ts' ∧ Punctuated source allowed n ts ts')
    (loc : Location) :
    ∃ ts', tokensFrom 0 loc (ending ++ rest) = .ok ts' ∧ Punctuated source allowed n ts ts' := by
  have hsemicolon : p → ∀ loc, ∃ ts', tokensFrom 0 loc (';' :: rest) = .ok ts' ∧
      Punctuated source allowed n ts ts' := by
    intro hp loc
    have hscan : scan ';' rest = .token (.mark .semicolon) 1 := by
      have hpair : rest.head?.bind (pairMark? ';') = none := by
        cases rest.head? <;> simp [pairMark?]
      rw [scan_of_ne_slash (by decide), if_neg (by decide), if_neg (by decide), if_neg (by decide),
        if_neg (by decide), scanMark, hpair]
      rfl
    obtain ⟨ts', htokens, hrest⟩ := h (loc.after [';'])
    refine ⟨⟨.mark .semicolon, loc⟩ :: ts', ?_, .add rfl (hallowed hp) hrest⟩
    rw [tokensFrom_token hscan]
    exact congrArg _ htokens
  cases hend with
  | bare => exact h loc
  | semicolon hp => exact hsemicolon hp loc
  | spaced hp =>
      have hskip := tokensFrom_spaces (g := [' ']) (by simp [isSpace]) loc (';' :: rest)
      rw [show [' ', ';'] ++ rest = [' '] ++ ';' :: rest from rfl, hskip]
      exact hsemicolon hp _

/-- A location at which a text stands in the source. -/
structure StandsAt (source : List Char) (loc : Location) (text : List Char) : Prop where
  inside : 0 ≤ loc.offset
  drop : source.drop loc.offset.toNat = text

theorem StandsAt.after {loc : Location} {front text : List Char}
    (h : StandsAt source loc (front ++ text)) : StandsAt source (loc.after front) text where
  inside := by
    have := h.inside
    rw [Location.offset_after]
    omega
  drop := by
    have hinside := h.inside
    have hoffset : (loc.after front).offset.toNat = loc.offset.toNat + front.length := by
      rw [Location.offset_after]
      omega
    rw [hoffset, ← List.drop_drop, h.drop, List.drop_left]

theorem StandsAt.drop_width {loc : Location} {text : List Char} (h : StandsAt source loc text)
    (width : Nat) : StandsAt source (loc.after (text.take width)) (text.drop width) := by
  rw [← List.take_append_drop width text] at h
  exact h.after

theorem StandsAt.reach {loc : Location} {text : List Char} (h : StandsAt source loc text)
    (kind : Kind) : reach source ⟨kind, loc⟩ = (visible text).length := by
  rw [Layout.reach, h.drop]

/-- Blanks at the end of a text hold no token but the end of the text. -/
theorem StandsAt.exists_eof {loc : Location} {g : Gap} (h : StandsAt source loc g.chars)
    {tokens : List Token} (htokens : tokensFrom 0 loc g.chars = .ok tokens) :
    ∃ t, tokens = [t] ∧ t.kind = .eof ∧ Layout.reach source t = 0 := by
  rw [← List.append_nil g.chars] at h htokens
  rw [tokensFrom_spaces (isSpace_of_tokensFrom g.blank htokens), tokensFrom] at htokens
  obtain rfl := Except.ok.inj htokens
  exact ⟨_, rfl, rfl, h.after.reach .eof⟩

/-- What has to be known of a text to cut what was laid out from it: strings and documentation are left alone and
no line of a string or a comment is left to break, and semicolons are allowed where they would be tokens. -/
structure Cuttable (added : Nat → Prop) (allowed : Nat → Prop) (semicolons : List Nat)
    (text : List Char) : Prop where
  known : ∀ m, added m → m ∈ semicolons
  inert : ∀ rest ∈ places text, isInert semicolons rest = true
  broken : ∀ rest ∈ places text, startsOnLine rest = true → breakAtBraces rest = rest
  permitted : ∀ m, added m → m = (visible text).length ∨ m ∈ openPlaces text → allowed m

/-- What is known of a text is known of what is left behind a scan. -/
theorem Cuttable.behind {semicolons : List Nat} {text rest : List Char} {added' : Nat → Prop}
    (h : Cuttable added allowed semicolons text) (hplaces : ∀ r ∈ places rest, r ∈ places text)
    (hadded : ∀ m, added' m → added m)
    (hplace : ∀ m, added' m → m = (visible rest).length → m ∈ openPlaces text) :
    Cuttable added' allowed semicolons rest where
  known m hm := h.known m (hadded m hm)
  inert r hr := h.inert r (hplaces r hr)
  broken r hr := h.broken r (hplaces r hr)
  permitted m hm hopen := by
    refine h.permitted m (hadded m hm) (Or.inr ?_)
    rcases hopen with hfront | hopen
    · exact hplace m hm hfront
    · obtain ⟨r, hr, hat⟩ := List.mem_filterMap.mp hopen
      exact List.mem_filterMap.mpr ⟨r, hplaces r hr, hat⟩

theorem Cuttable.spaces {semicolons : List Nat} {g text : List Char}
    (h : Cuttable added allowed semicolons (g ++ text)) (hg : ∀ d ∈ g, isSpace d = true) :
    Cuttable added allowed semicolons text where
  known := h.known
  inert r hr := h.inert r (places_spaces hg text r hr)
  broken r hr := h.broken r (places_spaces hg text r hr)
  permitted m hm hopen := by
    refine h.permitted m hm (hopen.imp (fun hfront => ?_) fun hopen => ?_)
    · have hnone : visible g = [] := by
        simpa [visible] using fun d hd => isBlank_of_isSpace (hg d hd)
      rw [hfront, visible_append, hnone]
      rfl
    · obtain ⟨r, hr, hat⟩ := List.mem_filterMap.mp hopen
      exact List.mem_filterMap.mpr ⟨r, places_spaces hg text r hr, hat⟩

/-- The tokens of a text at which a scan starts, if those of shorter texts are known. -/
theorem Behind.exists_tokens {semicolons : List Nat} (h : Behind added c cs out)
    (v : isBlank c = false) (hcut : Cuttable added allowed semicolons (c :: cs)) {loc : Location}
    (hloc : StandsAt source loc (c :: cs)) {tokens : List Token}
    (htokens : tokensFrom 0 loc (c :: cs) = .ok tokens)
    (ih : ∀ (text out' : List Char) (added' : Nat → Prop) (loc' : Location) (tokens' : List Token),
      text.length < (c :: cs).length → Between added' text out' →
      Cuttable added' allowed semicolons text → StandsAt source loc' text →
      tokensFrom 0 loc' text = .ok tokens' → ∀ at', ∃ ts', tokensFrom 0 at' out' = .ok ts' ∧
        Punctuated source allowed (visible text).length tokens' ts') (at' : Location) :
    ∃ ts', tokensFrom 0 at' (c :: out) = .ok ts' ∧
      Punctuated source allowed (visible (c :: cs)).length tokens ts' := by
  have hinert := hcut.inert _ (mem_places_self c cs)
  have hbraces := hcut.broken _ (mem_places_self c cs)
  have hshorter : ∀ {width : Nat}, 1 ≤ width →
      ((c :: cs).drop width).length < (c :: cs).length ∧
        (visible ((c :: cs).drop width)).length < (visible (c :: cs)).length := by
    intro width hwidth
    have hdrop := length_visible_drop_le hwidth (c :: cs)
    rw [List.drop_succ_cons, List.drop_zero] at hdrop
    rw [visible_cons v, List.length_drop, List.length_cons, List.length_cons]
    omega
  cases hscan : scan c cs with
  | token kind width =>
      obtain ⟨hlength, hvisible⟩ := hshorter (scan_token_width_pos hscan)
      obtain ⟨ts, rfl, hrest⟩ := exists_of_tokensFrom_token hscan htokens
      obtain ⟨kind', width', added', hscan', hfound, hbetween, hadded⟩ :=
        h.token v hbraces hscan hcut.known hinert (isSpace_of_takeWhile hrest)
      have hplaces : ∀ r ∈ places ((c :: cs).drop width), r ∈ places (c :: cs) := by
        intro r hr
        rw [places_token hscan]
        exact List.mem_cons_of_mem _ hr
      have hcut' := hcut.behind hplaces (fun m hm => (hadded m hm).1) fun m hm hplace =>
        List.mem_filterMap.mpr ⟨c :: cs, mem_places_self c cs, (hadded m hm).2 hplace⟩
      obtain ⟨ts', hts', hpunctuated⟩ := ih _ _ _ _ _ hlength hbetween hcut' (hloc.drop_width width)
        hrest (at'.after ((c :: out).take width'))
      have hreach : reach source ⟨kind, loc⟩ = (visible (c :: cs)).length := hloc.reach kind
      have hbelow : (visible ((c :: cs).drop width)).length < reach source ⟨kind, loc⟩ := by
        rw [hreach]
        exact hvisible
      refine ⟨⟨kind', at'⟩ :: ts', ?_, ?_⟩
      · rw [tokensFrom_token hscan', hts']
        rfl
      · cases hfound with
        | same => exact .keep rfl (Nat.le_of_eq hreach) hbelow hpunctuated
        | idle text text' hidle =>
            exact .reword rfl rfl (takesDoc_of_not_isTaken hidle hrest) (Nat.le_of_eq hreach) hbelow
              hpunctuated
  | gap width =>
      obtain ⟨hlength, hvisible⟩ := hshorter (scan_gap_width_pos hscan)
      rw [tokensFrom_gap hscan] at htokens
      obtain ⟨width', added', hscan', hbetween, hadded⟩ := h.gap v hbraces hscan
      have hplaces : ∀ r ∈ places ((c :: cs).drop width), r ∈ places (c :: cs) := by
        intro r hr
        rw [places_gap hscan]
        exact List.mem_cons_of_mem _ hr
      have hcut' := hcut.behind hplaces (fun m hm => (hadded m hm).1) fun m hm hplace =>
        List.mem_filterMap.mpr ⟨c :: cs, mem_places_self c cs, (hadded m hm).2 hplace⟩
      obtain ⟨ts', hts', hpunctuated⟩ := ih _ _ _ _ _ hlength hbetween hcut' (hloc.drop_width width)
        htokens (at'.after ((c :: out).take width'))
      refine ⟨ts', ?_, .pass (Nat.le_of_lt hvisible) hpunctuated⟩
      rw [tokensFrom_gap hscan', hts']
  | fault cause before =>
      simp [tokensFrom, hscan] at htokens
  | valueless numeral =>
      simp [tokensFrom, hscan] at htokens

/-- What was laid out from a text that can be cut into tokens can be cut into the same tokens, with semicolons
where they are allowed. -/
theorem Between.exists_tokens {semicolons : List Nat} {text : List Char} (h : Between added text out)
    (hcut : Cuttable added allowed semicolons text) {loc : Location} (hloc : StandsAt source loc text)
    {tokens : List Token} (htokens : tokensFrom 0 loc text = .ok tokens) (at' : Location) :
    ∃ ts', tokensFrom 0 at' out = .ok ts' ∧
      Punctuated source allowed (visible text).length tokens ts' := by
  induction hn : text.length using Nat.strongRecOn generalizing text out added loc tokens at' with
  | ind n ih =>
      subst hn
      obtain ⟨t, s, rfl, hlaid, hready⟩ := h
      cases t with
      | last g =>
          rw [Spaced.text_last] at htokens hcut hloc ⊢
          obtain ⟨t, rfl, hkind, hreach⟩ := hloc.exists_eof htokens
          have hsize : (visible g.chars).length = 0 := by rw [g.visible_chars]; rfl
          cases hlaid with
          | @last _ _ ending below hend hbelow =>
              refine hend.tokens (fun hp => hcut.permitted _ (hsize ▸ hp) (Or.inl rfl))
                (fun at' => ?_) at'
              have hfeed : ∀ d ∈ below, isSpace d = true := by
                rcases hbelow with rfl | rfl <;> simp [isSpace]
              have hend := tokensFrom_spaces hfeed at' []
              rw [List.append_nil] at hend
              exact ⟨_, hend, .done hkind.symm (Nat.le_of_eq (hreach.trans hsize.symm))⟩
      | next g c v rest =>
          have hspace := isSpace_of_tokensFrom g.blank htokens
          have hcount : visible (g.chars ++ c :: rest.text) = visible (c :: rest.text) := by
            rw [visible_append, g.visible_chars, List.nil_append]
          rw [Spaced.text_next] at htokens hcut hloc ih ⊢
          rw [tokensFrom_spaces hspace] at htokens
          rw [hcount]
          have hbegin : ∀ {s' : LineState} {out' : List Char}, Laid added s' rest out' →
              s'.Begun c rest → ∀ at', ∃ ts', tokensFrom 0 at' (c :: out') = .ok ts' ∧
                Punctuated source allowed (visible (c :: rest.text)).length tokens ts' := by
            intro s' out' hrest hbegun
            refine Behind.exists_tokens ⟨rest, s', rfl, hrest, hbegun⟩ v (hcut.spaces hspace) hloc.after
              htokens fun text out'' added' loc' ts hlength hbetween hcut' hloc' hts at'' => ?_
            refine ih _ ?_ hbetween hcut' hloc' hts at'' rfl
            rw [List.length_append]
            omega
          cases hlaid with
          | stay hfeeds hrest =>
              have hskip : ∀ d ∈ (lineSpacer.between s g c rest).chars, isSpace d = true := by
                intro d hd
                rcases mem_between hd with rfl | hd
                · decide
                · exact hspace d hd
              rw [tokensFrom_spaces hskip]
              exact hbegin hrest (hready.begun g c rest) _
          | @feed _ _ _ _ _ ending out k hfeeds hend hrest =>
              have hplace : (visible (g.chars ++ c :: rest.text)).length = rest.size + 1 := by
                rw [hcount, visible_cons v, List.length_cons, rest.visible_text, Spaced.length_letters]
              refine hend.tokens (fun hp => ?_) (fun at' => ?_) at'
              · rw [← hcount]
                exact hcut.permitted _ (hplace ▸ hp) (Or.inl rfl)
              · have hskip : ∀ d ∈ '\n' :: ((if feedsBefore s.before g c = 1 then [] else ['\n']) ++
                    List.replicate k ' '), isSpace d = true := by
                  intro d hd
                  have hd : d = '\n' ∨ d = ' ' := by
                    rcases List.mem_cons.mp hd with hd | hd
                    · exact Or.inl hd
                    · exact mem_indentation hd
                  rcases hd with rfl | rfl <;> decide
                have hgap := tokensFrom_spaces hskip at' (c :: out)
                rw [List.cons_append, List.append_assoc] at hgap
                rw [hgap]
                exact hbegin hrest (ready_start.begun .none c rest) _

end ScriptLens.Layout
