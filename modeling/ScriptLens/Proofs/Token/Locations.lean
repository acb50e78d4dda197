import ScriptLens.Proofs.Located
import ScriptLens.Syntax.Read

/-!
# Where tokens and faults stand

The location of a token is counted one character at a time.  So every token stands where a part of the
text ends, each behind the one before it, with the mark of the end of the text as the last one.  A fault
stands in the text too: a lexical one where scanning stopped, a grammatical one where a token stands.

Main statement: `tokenize_locations`.
-/

namespace ScriptLens

namespace Token

/-! ### Scans -/

theorem scanMark_ne_eof {c : Char} {cs : List Char} {kind : Kind} {width : Nat}
    (h : scanMark c cs = .token kind width) : kind ≠ .eof := by
  unfold scanMark at h
  split at h
  · cases h
    simp
  · split at h
    · cases h
      simp
    · cases h

theorem scanWord_ne_eof {cs : List Char} {kind : Kind} {width : Nat}
    (h : scanWord cs = .token kind width) : kind ≠ .eof := by
  unfold scanWord at h
  dsimp only at h
  split at h <;> cases h <;> simp

theorem scanNumeral_ne_eof {cs : List Char} {kind : Kind} {width : Nat}
    (h : scanNumeral cs = .token kind width) : kind ≠ .eof := by
  unfold scanNumeral at h
  dsimp only at h
  split at h
  · cases h
    simp
  · cases h

theorem scanString_ne_eof {quote : Char} {cs : List Char} {kind : Kind} {width : Nat}
    (h : scanString quote cs = .token kind width) : kind ≠ .eof := by
  unfold scanString at h
  split at h
  · cases h
    simp
  · cases h
  · cases h

/-- No text starts with the mark of its end. -/
theorem scan_ne_eof {c : Char} {cs : List Char} {kind : Kind} {width : Nat}
    (h : scan c cs = .token kind width) : kind ≠ .eof := by
  unfold scan at h
  split at h
  · cases h
  · split at h
    · cases h
      simp
    · cases h
    · split at h <;> cases h
    · split at h
      · exact scanString_ne_eof h
      · split at h
        · exact scanNumeral_ne_eof h
        · split at h
          · exact scanWord_ne_eof h
          · exact scanMark_ne_eof h

/-! ### Tokens of a text -/

/-- Where the tokens of a text stand that starts at `loc`. -/
structure Placed (loc : Location) (text : List Char) (tokens : List Token) : Prop where
  reached : ∀ t ∈ tokens, ∃ before behind, text = before ++ behind ∧ t.location = loc.after before
  ordered : tokens.Pairwise fun t u => t.location.offset < u.location.offset
  ended : ∃ init, tokens = init ++ [⟨.eof, loc.after text⟩] ∧ ∀ t ∈ init, t.kind ≠ .eof

theorem placed_nil (loc : Location) : Placed loc [] [⟨.eof, loc⟩] where
  reached := by
    intro t ht
    obtain rfl := List.mem_singleton.mp ht
    exact ⟨[], [], rfl, rfl⟩
  ordered := List.pairwise_singleton _ _
  ended := ⟨[], rfl, by simp⟩

/-- A character more in front moves no token. -/
theorem Placed.pass {loc : Location} {c : Char} {cs : List Char} {tokens : List Token}
    (h : Placed (loc.next c) cs tokens) : Placed loc (c :: cs) tokens where
  reached := by
    intro t ht
    obtain ⟨before, behind, rfl, hloc⟩ := h.reached t ht
    exact ⟨c :: before, behind, rfl, hloc⟩
  ordered := h.ordered
  ended := h.ended

/-- A token at the start of a text stands before all others. -/
theorem Placed.cons {loc : Location} {c : Char} {cs : List Char} {tokens : List Token}
    (h : Placed (loc.next c) cs tokens) {kind : Kind} (hkind : kind ≠ .eof) :
    Placed loc (c :: cs) (⟨kind, loc⟩ :: tokens) where
  reached := by
    intro t ht
    rcases List.mem_cons.mp ht with rfl | ht
    · exact ⟨[], c :: cs, rfl, rfl⟩
    · exact h.pass.reached t ht
  ordered := by
    refine List.pairwise_cons.mpr ⟨fun t ht => ?_, h.ordered⟩
    obtain ⟨before, behind, -, hloc⟩ := h.reached t ht
    have hnext : (loc.next c).offset = loc.offset + 1 := by
      rw [Location.next]
      split <;> rfl
    rw [hloc, Location.offset_after, hnext]
    dsimp only
    omega
  ended := by
    obtain ⟨init, rfl, hinit⟩ := h.ended
    refine ⟨⟨kind, loc⟩ :: init, rfl, fun t ht => ?_⟩
    rcases List.mem_cons.mp ht with rfl | ht
    · exact hkind
    · exact hinit t ht

/-- The tokens of a text are placed in it. -/
theorem placed_tokensFrom {skip : Nat} {loc : Location} {text : List Char} {tokens : List Token}
    (h : tokensFrom skip loc text = .ok tokens) : Placed loc text tokens := by
  fun_induction tokensFrom skip loc text generalizing tokens with
  | case1 skip loc =>
      obtain rfl := Except.ok.inj h
      exact placed_nil loc
  | case2 loc c cs skip ih => exact (ih h).pass
  | case3 loc c cs width hscan ih => exact (ih h).pass
  | case4 loc c cs kind width hscan ih =>
      cases hrest : tokensFrom (width - 1) (loc.next c) cs with
      | error stop =>
          rw [hrest] at h
          cases h
      | ok rest =>
          rw [hrest] at h
          obtain rfl : ⟨kind, loc⟩ :: rest = tokens := Except.ok.inj h
          exact (ih hrest).cons (scan_ne_eof hscan)
  | case5 loc c cs cause before hscan => cases h
  | case6 loc c cs numeral hscan => cases h

/-- A fault stands where a part of the text ends. -/
theorem reached_of_fault {skip : Nat} {loc : Location} {text : List Char} {cause : Cause}
    {place : Location} (h : tokensFrom skip loc text = .error (.fault cause place)) :
    ∃ before behind, text = before ++ behind ∧ place = loc.after before := by
  have hpass : ∀ {c : Char} {cs : List Char} {start : Location},
      (∃ before behind, cs = before ++ behind ∧ place = (start.next c).after before) →
      ∃ before behind, c :: cs = before ++ behind ∧ place = start.after before := by
    rintro c cs start ⟨before, behind, rfl, hplace⟩
    exact ⟨c :: before, behind, rfl, hplace⟩
  fun_induction tokensFrom skip loc text with
  | case1 skip loc => cases h
  | case2 loc c cs skip ih => exact hpass (ih h)
  | case3 loc c cs width hscan ih => exact hpass (ih h)
  | case4 loc c cs kind width hscan ih =>
      cases hrest : tokensFrom (width - 1) (loc.next c) cs with
      | ok rest =>
          rw [hrest] at h
          cases h
      | error stop =>
          rw [hrest] at h
          obtain rfl : stop = .fault cause place := Except.error.inj h
          exact hpass (ih hrest)
  | case5 loc c cs cause before hscan =>
      obtain ⟨-, rfl⟩ := Stop.fault.inj (Except.error.inj h)
      exact ⟨(c :: cs).take before, (c :: cs).drop before, (List.take_append_drop _ _).symm, rfl⟩
  | case6 loc c cs numeral hscan => cases h

/-- Cutting that stops at a numeral without a value has scanned it. -/
theorem scan_of_valueless {skip : Nat} {loc : Location} {text numeral : List Char}
    (h : tokensFrom skip loc text = .error (.valueless numeral)) :
    ∃ c cs, scan c cs = .valueless numeral := by
  fun_induction tokensFrom skip loc text with
  | case1 skip loc => cases h
  | case2 loc c cs skip ih => exact ih h
  | case3 loc c cs width hscan ih => exact ih h
  | case4 loc c cs kind width hscan ih =>
      cases hrest : tokensFrom (width - 1) (loc.next c) cs with
      | ok rest =>
          rw [hrest] at h
          cases h
      | error stop =>
          rw [hrest] at h
          obtain rfl : stop = .valueless numeral := Except.error.inj h
          exact ih hrest
  | case5 loc c cs cause before hscan => cases h
  | case6 loc c cs found hscan =>
      obtain rfl := Stop.valueless.inj (Except.error.inj h)
      exact ⟨c, cs, hscan⟩

theorem Placed.located {file : Option String} {text : List Char} {tokens : List Token}
    (h : Placed (.start file) text tokens) : ∀ t ∈ tokens, Located text t.location := by
  intro t ht
  obtain ⟨before, behind, rfl, hloc⟩ := h.reached t ht
  rw [hloc]
  exact located_after file before behind

theorem placed_tokenize {source : String} {file : Option String} {tokens : List Token}
    (h : tokenize source file = .ok tokens) : Placed (.start file) source.toList tokens := by
  rw [tokenize] at h
  cases htokens : tokensFrom 0 (Location.start file) source.toList with
  | error stop =>
      rw [htokens] at h
      cases h
  | ok ts =>
      rw [htokens] at h
      obtain rfl : ts = tokens := Except.ok.inj h
      exact placed_tokensFrom htokens

/-- A text that cannot be cut into tokens fails as the cutting stopped. -/
theorem stop_of_tokenize {source : String} {file : Option String} {failure : Failure}
    (h : tokenize source file = .error failure) :
    ∃ stop, tokensFrom 0 (.start file) source.toList = .error stop ∧ failure = stop.toFailure source.toList := by
  rw [tokenize] at h
  cases hstop : tokensFrom 0 (Location.start file) source.toList with
  | ok tokens =>
      rw [hstop] at h
      cases h
  | error stop =>
      rw [hstop] at h
      exact ⟨stop, rfl, (Except.error.inj h).symm⟩

/-- A lexical fault stands in the text. -/
theorem located_of_fault {source : String} {file : Option String} {f : Fault}
    (h : tokenize source file = .error (.fault f)) :
    ∃ loc, f.location = some loc ∧ Located source.toList loc := by
  obtain ⟨stop, hstop, hfailure⟩ := stop_of_tokenize h
  cases stop with
  | valueless numeral => cases hfailure
  | fault cause loc =>
      obtain rfl := Failure.fault.inj hfailure
      obtain ⟨before, behind, htext, rfl⟩ := reached_of_fault hstop
      refine ⟨_, rfl, ?_⟩
      rw [htext]
      exact located_after file before behind

end Token

/-! ### Tokens that do not fit -/

namespace Syntax

theorem token_of_take {r : Reading} {t : Token} {m : Misfit} (h : r.take t = .error m) :
    m.token = t := by
  rw [Reading.take] at h
  cases hstep : r.step t with
  | ok next =>
      rw [hstep] at h
      cases h
  | error complaint =>
      rw [hstep] at h
      obtain rfl : ⟨complaint, t⟩ = m := Except.error.inj h
      rfl

theorem mem_of_takeAll {r : Reading} {tokens : List Token} {m : Misfit}
    (h : r.takeAll tokens = .error m) : m.token ∈ tokens := by
  induction tokens generalizing r with
  | nil => cases h
  | cons t ts ih =>
      rw [Reading.takeAll] at h
      cases htake : r.take t with
      | error misfit =>
          rw [htake] at h
          obtain rfl : misfit = m := Except.error.inj h
          rw [token_of_take htake]
          exact List.mem_cons_self
      | ok next =>
          rw [htake] at h
          exact List.mem_cons_of_mem t (ih h)

/-- A token that does not fit stands where one of the tokens does. -/
theorem location_of_programOf {tokens : List Token} (hne : tokens ≠ []) {m : Misfit}
    (h : programOf tokens = .error m) : ∃ t ∈ tokens, m.token.location = t.location := by
  have hlast : ∃ t ∈ tokens, (tokens.getLast?.map Token.location).getD (.start none) = t.location := by
    refine ⟨tokens.getLast hne, List.getLast_mem hne, ?_⟩
    rw [List.getLast?_eq_some_getLast hne]
    rfl
  rw [programOf] at h
  cases hall : (Reading.start tokens).takeAll tokens with
  | error misfit =>
      rw [hall] at h
      obtain rfl : misfit = m := Except.error.inj h
      exact ⟨misfit.token, mem_of_takeAll hall, rfl⟩
  | ok r =>
      simp only [hall, bind, Except.bind] at h
      split at h
      · cases h
      · split at h
        · rename_i misfit htake
          obtain rfl : misfit = m := Except.error.inj h
          rw [token_of_take htake]
          exact hlast
        · split at h
          · cases h
          · obtain rfl := Except.error.inj h
            exact hlast

/-- A program is read from the tokens of its text. -/
theorem tokens_of_read {source : String} {file : Option String} {p : Program}
    (h : read source file = .ok p) :
    ∃ tokens, Token.tokenize source file = .ok tokens ∧ programOf tokens = .ok p := by
  rw [read] at h
  cases htokens : Token.tokenize source file with
  | error failure =>
      rw [htokens] at h
      cases h
  | ok tokens =>
      refine ⟨tokens, rfl, ?_⟩
      rw [htokens] at h
      replace h : readTokens tokens source file = .ok p := h
      rw [readTokens] at h
      cases hprogram : programOf tokens with
      | error m =>
          rw [hprogram] at h
          cases h
      | ok q =>
          rw [hprogram] at h
          obtain rfl : q = p := Except.ok.inj h
          rfl

/-- A fault of a text stands in the text. -/
theorem located_of_fault {source : String} {file : Option String} {f : Fault}
    (h : read source file = .error (.fault f)) :
    ∃ loc, f.location = some loc ∧ Located source.toList loc := by
  rw [read] at h
  cases htokens : Token.tokenize source file with
  | error failure =>
      rw [htokens] at h
      obtain rfl : failure = .fault f := Except.error.inj h
      exact Token.located_of_fault htokens
  | ok tokens =>
      rw [htokens] at h
      have hplaced := Token.placed_tokenize htokens
      obtain ⟨init, hinit, -⟩ := hplaced.ended
      have hne : tokens ≠ [] := by simp [hinit]
      replace h : readTokens tokens source file = .error (.fault f) := h
      rw [readTokens] at h
      cases hprogram : programOf tokens with
      | ok p =>
          rw [hprogram] at h
          cases h
      | error m =>
          rw [hprogram] at h
          obtain rfl := Failure.fault.inj (Except.error.inj h)
          obtain ⟨t, ht, hloc⟩ := location_of_programOf hne hprogram
          refine ⟨_, rfl, ?_⟩
          rw [hloc]
          exact (hplaced.located t ht).rename _

end Syntax

/-! ### Locations in a source text -/

/-- Every token of a source text stands in the text, behind the tokens before it, and the last one marks the
end of the text.  A fault of the text stands in it as well.  For a text of less than `2 ^ 31` characters,
which is not too long for the editor, standing in it is what positions and offsets say. -/
theorem tokenize_locations (source : String) (file : Option String) :
    (∀ tokens, Token.tokenize source file = .ok tokens →
      (∀ t ∈ tokens, Located source.toList t.location) ∧
      tokens.Pairwise (fun t u => t.location.offset < u.location.offset) ∧
      ∃ init last, tokens = init ++ [last] ∧ last.kind = .eof ∧
        last.location.offset = (source.length : Int) ∧ ∀ t ∈ init, t.kind ≠ .eof) ∧
    (∀ f, Token.tokenize source file = .error (.fault f) →
      ∃ loc, f.location = some loc ∧ Located source.toList loc) ∧
    (∀ f, Syntax.read source file = .error (.fault f) →
      ∃ loc, f.location = some loc ∧ Located source.toList loc) ∧
    (source.length < 2147483648 → ∀ loc, Located source.toList loc ↔
      (∃ position, Position.ofOffset source.toList loc.offset = .ok position ∧
        (position.line : Int) = loc.line - 1 ∧ (position.character : Int) = loc.column - 1) ∧
      (Position.offsetOf source.toList (loc.line - 1) (loc.column - 1) : Int) = loc.offset) := by
  refine ⟨?_, fun f h => Token.located_of_fault h, fun f h => Syntax.located_of_fault h, ?_⟩
  · intro tokens h
    have hplaced := Token.placed_tokenize h
    obtain ⟨init, hinit, hkinds⟩ := hplaced.ended
    refine ⟨hplaced.located, hplaced.ordered, init, _, hinit, rfl, ?_, hkinds⟩
    simp [Location.offset_after, Location.start, String.length_toList]
  · intro hshort loc
    exact located_iff_position (by rwa [String.length_toList]) loc

/-- Texts of two lines: one with two names, one with a string that is left open, and one with an assignment
that is left open. -/
theorem tokenize_locations_two_lines :
    (∃ tokens, Token.tokenize "a\n b" none = .ok tokens ∧
      (∀ t ∈ tokens, Located "a\n b".toList t.location) ∧
      tokens.Pairwise fun t u => t.location.offset < u.location.offset) ∧
    (∃ f loc, Token.tokenize "a\n 'b" none = .error (.fault f) ∧ f.location = some loc ∧
      Located "a\n 'b".toList loc) ∧
    (∃ f loc, Syntax.read "a\n =" none = .error (.fault f) ∧ f.location = some loc ∧
      Located "a\n =".toList loc) ∧
    Located "a\n b".toList ⟨2, 2, 3, none⟩ := by
  have htokens : Token.tokenize "a\n b" none = .ok [⟨.identifier "a", ⟨1, 1, 0, none⟩⟩,
      ⟨.identifier "b", ⟨2, 2, 3, none⟩⟩, ⟨.eof, ⟨2, 3, 4, none⟩⟩] := rfl
  obtain ⟨f, hf⟩ : ∃ f, Token.tokenize "a\n 'b" none = .error (.fault f) := ⟨_, rfl⟩
  obtain ⟨g, hg⟩ : ∃ g, Syntax.read "a\n =" none = .error (.fault g) := ⟨_, rfl⟩
  obtain ⟨hlocated, hordered, -⟩ := (tokenize_locations "a\n b" none).1 _ htokens
  obtain ⟨loc, hloc⟩ := (tokenize_locations "a\n 'b" none).2.1 f hf
  obtain ⟨place, hplace⟩ := (tokenize_locations "a\n =" none).2.2.1 g hg
  have hposition := (tokenize_locations "a\n b" none).2.2.2 (by decide) ⟨2, 2, 3, none⟩
  exact ⟨⟨_, htokens, hlocated, hordered⟩, ⟨f, loc, hf, hloc⟩, ⟨g, place, hg, hplace⟩,
    hposition.mpr ⟨⟨⟨1, 1⟩, rfl, rfl, rfl⟩, rfl⟩⟩

end ScriptLens
