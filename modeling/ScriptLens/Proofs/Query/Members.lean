import ScriptLens.Proofs.Token.Fronts
import ScriptLens.Query.Completion

/-!
# When members are offered

Behind a name and a dot, completion offers the members of what the name means.  The dot need not be right before the
cursor, though: it may also be the last character of the line above, if the cursor is at the start of a line.  Nothing
else makes completion offer members.

Main statement: `completions_at_cursor`.
-/

namespace ScriptLens.Query

/-! ### Words at the end of a text -/

/-- A text ends with a word, which is as long as it can be. -/
structure EndsInWord (text word : List Char) : Prop where
  nonempty : word ≠ []
  letters : ∀ c ∈ word, isWordChar c = true
  cut : ∃ front, text = front ++ word ∧ ∀ c, front.getLast? = some c → isWordChar c = false

theorem wordBefore?_eq_some_iff (text word : List Char) :
    wordBefore? text.reverse = some word ↔ EndsInWord text word := by
  constructor
  · intro h
    obtain ⟨run, rest, hcut, hrun, hstop⟩ := Token.exists_run isWordChar text.reverse
    rw [wordBefore?, hcut, Token.takeWhile_append_stop hrun hstop] at h
    split at h
    · cases h
    · rename_i hsome
      obtain rfl := Option.some.inj h
      refine ⟨by simpa using hsome, fun c hc => hrun c (List.mem_reverse.mp hc), rest.reverse, ?_, ?_⟩
      · rw [← List.reverse_append, ← hcut, List.reverse_reverse]
      · intro c hc
        rw [List.getLast?_reverse] at hc
        exact hstop c hc
  · rintro ⟨hne, hletters, front, rfl, hfront⟩
    have hrun : ∀ c ∈ word.reverse, isWordChar c = true := fun c hc => hletters c (List.mem_reverse.mp hc)
    have hstop : ∀ c, front.reverse.head? = some c → isWordChar c = false := by
      intro c hc
      rw [List.head?_reverse] at hc
      exact hfront c hc
    rw [wordBefore?, List.reverse_append, Token.takeWhile_append_stop hrun hstop]
    simp [hne]

/-- A text ends with a word and a dot right behind it. -/
def EndsInAccess (text word : List Char) : Prop :=
  ∃ before, text = before ++ ['.'] ∧ EndsInWord before word

/-- The members of a word are asked for at the end of a text: a dot stands right behind the word, and nothing but one
line feed may stand behind the dot. -/
def AsksFor (text word : List Char) : Prop :=
  EndsInAccess text word ∨ ∃ above, text = above ++ ['\n'] ∧ EndsInAccess above word

theorem objectBefore?_eq_some_iff (text word : List Char) :
    objectBefore? text.reverse = some word ↔ AsksFor text word := by
  constructor
  · intro h
    unfold objectBefore? at h
    split at h
    · rename_i before hcut
      refine Or.inl ⟨before.reverse, ?_, ?_⟩
      · rw [← List.reverse_reverse text, hcut, List.reverse_cons]
      · rwa [← wordBefore?_eq_some_iff, List.reverse_reverse]
    · rename_i before hcut
      refine Or.inr ⟨before.reverse ++ ['.'], ?_, before.reverse, rfl, ?_⟩
      · rw [← List.reverse_reverse text, hcut, List.reverse_cons, List.reverse_cons]
      · rwa [← wordBefore?_eq_some_iff, List.reverse_reverse]
    · cases h
  · rintro (⟨before, rfl, hword⟩ | ⟨above, rfl, before, rfl, hword⟩)
    · rw [← wordBefore?_eq_some_iff] at hword
      rw [List.reverse_append]
      exact hword
    · rw [← wordBefore?_eq_some_iff] at hword
      rw [List.reverse_append, List.reverse_append]
      exact hword

/-- Behind a line feed no word and dot are right before the end. -/
theorem not_endsInAccess_feed (above word : List Char) : ¬EndsInAccess (above ++ ['\n']) word := by
  rintro ⟨before, hcut, -⟩
  have hlast := congrArg List.getLast? hcut
  rw [List.getLast?_concat, List.getLast?_concat] at hlast
  exact absurd (Option.some.inj hlast) (by decide)

/-! ### Members -/

theorem memberItems?_eq_some_iff (object : String) (locals : List Symbol) (items : List CompletionItem) :
    memberItems? object locals = some items ↔
      ∃ s, Symbol.resolve? locals object = some s ∧ s.members ≠ [] ∧ items = s.members.map Symbol.toCompletion := by
  rw [memberItems?]
  cases hmeaning : Symbol.resolve? locals object with
  | none => simp
  | some s =>
      cases hmembers : s.members with
      | nil => simp [hmembers]
      | cons first rest => simp [hmembers, eq_comm]

/-- What stands before the cursor at an offset, which is moved into the text. -/
def textBefore (text : List Char) (offset : Int) : List Char :=
  text.take (Position.clamp text offset)

/-- At the end of a text, the members of a name that means something with members are asked for. -/
def OffersMembers (text : List Char) (locals : List Symbol) (items : List CompletionItem) : Prop :=
  ∃ word s, AsksFor text word ∧ Symbol.resolve? locals (String.ofList word) = some s ∧ s.members ≠ [] ∧
    items = s.members.map Symbol.toCompletion

theorem offersMembers_iff (text : List Char) (offset : Int) (locals : List Symbol) (items : List CompletionItem) :
    OffersMembers (textBefore text offset) locals items ↔
      (((Cursor.ofOffset text offset).object?.map String.ofList).bind fun object => memberItems? object locals) =
        some items := by
  have hobject : (Cursor.ofOffset text offset).object? =
      objectBefore? (textBefore text offset).reverse := rfl
  rw [hobject, Option.bind_eq_some_iff]
  constructor
  · rintro ⟨word, s, hasked, hmeaning, hmembers, hitems⟩
    refine ⟨String.ofList word, ?_, (memberItems?_eq_some_iff _ _ _).mpr ⟨s, hmeaning, hmembers, hitems⟩⟩
    rw [(objectBefore?_eq_some_iff _ _).mpr hasked, Option.map_some]
  · rintro ⟨object, hobject, hitems⟩
    obtain ⟨word, hword, rfl⟩ := Option.map_eq_some_iff.mp hobject
    obtain ⟨s, hmeaning, hmembers, hitems⟩ := (memberItems?_eq_some_iff _ _ _).mp hitems
    exact ⟨word, s, (objectBefore?_eq_some_iff _ _).mp hword, hmeaning, hmembers, hitems⟩

/-- The name whose members are asked for at a cursor is the word before a dot that is the last character before the
cursor, or the last one but a line feed.  So it is the word before a dot right before the cursor, except at the start
of a line below one that ends with a word and a dot.  Outside of comments the members of that name are offered if it
means something with members, and what the line can use is offered in all other cases.  So members are offered only
behind a dot, or behind a dot and a line feed. -/
theorem completions_at_cursor (text : List Char) (offset : Int) (locals : List Symbol) :
    (∀ word, (Cursor.ofOffset text offset).object? = some word ↔
      AsksFor (textBefore text offset) word) ∧
    ((∀ word, (Cursor.ofOffset text offset).object? = some word ↔
        EndsInAccess (textBefore text offset) word) ↔
      ¬∃ above word, textBefore text offset = above ++ ['\n'] ∧ EndsInAccess above word) ∧
    ((Cursor.ofOffset text offset).inComment = true →
      completionItems (Cursor.ofOffset text offset) locals = []) ∧
    ((Cursor.ofOffset text offset).inComment = false →
      (∀ items, OffersMembers (textBefore text offset) locals items →
        completionItems (Cursor.ofOffset text offset) locals = items) ∧
      ((∀ items, ¬OffersMembers (textBefore text offset) locals items) →
        completionItems (Cursor.ofOffset text offset) locals =
          scopeItems (Cursor.ofOffset text offset).line locals)) ∧
    ∀ items, OffersMembers (textBefore text offset) locals items →
      ['.'] <:+ textBefore text offset ∨ ['.', '\n'] <:+ textBefore text offset := by
  have hobject : ∀ word, (Cursor.ofOffset text offset).object? = some word ↔
      AsksFor (textBefore text offset) word :=
    fun word => objectBefore?_eq_some_iff _ word
  refine ⟨hobject, ?_, ?_, ?_, ?_⟩
  · constructor
    · rintro hbehind ⟨above, word, hcut, hword⟩
      have haccess := (hbehind word).mp ((hobject word).mpr (Or.inr ⟨above, hcut, hword⟩))
      rw [hcut] at haccess
      exact not_endsInAccess_feed above word haccess
    · intro hnone word
      rw [hobject]
      constructor
      · rintro (hword | ⟨above, hcut, hword⟩)
        · exact hword
        · exact absurd ⟨above, word, hcut, hword⟩ hnone
      · exact Or.inl
  · intro hcomment
    rw [completionItems, if_pos hcomment]
  · intro hcode
    rw [completionItems, if_neg (by simp [hcode])]
    constructor
    · intro items hitems
      rw [(offersMembers_iff text offset locals items).mp hitems, Option.getD_some]
    · intro hnone
      rw [Option.eq_none_iff_forall_ne_some.mpr fun items hitems =>
        hnone items ((offersMembers_iff text offset locals items).mpr hitems), Option.getD_none]
  · rintro items ⟨word, s, ⟨before, hcut, -⟩ | ⟨above, hcut, before, rfl, -⟩, -⟩
    · exact Or.inl ⟨before, hcut.symm⟩
    · refine Or.inr ⟨before, ?_⟩
      rw [hcut, List.append_assoc]
      rfl

/-- An offset behind the end of a text that ends with a name and a dot. -/
theorem completions_at_cursor_namespace :
    (Cursor.ofOffset "f(Time.".toList 99).inComment = false ∧
      AsksFor (textBefore "f(Time.".toList 99) "Time".toList ∧
      (completionItems (Cursor.ofOffset "f(Time.".toList 99) []).map CompletionItem.label = ["now", "sleep"] := by
  obtain ⟨hobject, -, -, hcode, -⟩ := completions_at_cursor "f(Time.".toList 99 []
  have hasked := (hobject "Time".toList).mp (by decide)
  have hitems := (hcode (by decide)).1 _ ⟨"Time".toList, _, hasked, rfl, by decide, rfl⟩
  refine ⟨by decide, hasked, ?_⟩
  rw [hitems]
  decide

/-- At the start of a line below a comment that ends with a name and a dot, the members of the name are offered. -/
theorem members_behind_line_feed :
    (Cursor.ofOffset "// Math.\n".toList 9).object? = some "Math".toList ∧
      ¬EndsInAccess "// Math.\n".toList "Math".toList ∧
      (completionItems (Cursor.ofOffset "// Math.\n".toList 9) []).map CompletionItem.label =
        ["PI", "E", "abs", "floor", "ceil", "round", "sqrt", "pow", "min", "max", "sin", "cos", "random"] :=
  ⟨by decide, not_endsInAccess_feed "// Math.".toList _, by decide⟩

end ScriptLens.Query
