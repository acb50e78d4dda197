import ScriptLens.Proofs.Syntax.Agreement
import ScriptLens.Proofs.Token.Joining

/-!
# Reading ends

The tokens of a text are cut off its front one after the other, with white space and comments in between.  Nothing in
the loop itself (`Token.Walk`) says that what is cut off has a width, but it always has, so that the loop ends.

The procedures of the grammar end on all tokens of which the last and no other marks the end (`Descent.EndsAt`), and
what they come to is the program, or the complaint, that reading comes to.

Main statement: `front_end_terminates`.
-/

namespace ScriptLens.Token

/-! ### Cutting a text into tokens -/

/-- The loop over the text that starts at a location: the tokens that it finds with their widths, and why it stops if
it stops before the end of the text. -/
inductive Walk : Location → List Char → List (Token × Nat) → Option Stop → Prop
  | finish (loc : Location) : Walk loc [] [(⟨.eof, loc⟩, 0)] none
  | gap {loc : Location} {c : Char} {cs : List Char} {width : Nat} {found : List (Token × Nat)} {stop : Option Stop}
      (hscan : scan c cs = .gap width)
      (hrest : Walk (loc.after ((c :: cs).take width)) ((c :: cs).drop width) found stop) :
      Walk loc (c :: cs) found stop
  | token {loc : Location} {c : Char} {cs : List Char} {kind : Kind} {width : Nat} {found : List (Token × Nat)}
      {stop : Option Stop} (hscan : scan c cs = .token kind width)
      (hrest : Walk (loc.after ((c :: cs).take width)) ((c :: cs).drop width) found stop) :
      Walk loc (c :: cs) ((⟨kind, loc⟩, width) :: found) stop
  | fault {loc : Location} {c : Char} {cs : List Char} {cause : Cause} {before : Nat}
      (hscan : scan c cs = .fault cause before) :
      Walk loc (c :: cs) [] (some (.fault cause (loc.after ((c :: cs).take before))))
  | valueless {loc : Location} {c : Char} {cs text : List Char} (hscan : scan c cs = .valueless text) :
      Walk loc (c :: cs) [] (some (.valueless text))

/-- The loop ends, whatever the text. -/
theorem exists_walk (text : List Char) : ∀ loc, ∃ found stop, Walk loc text found stop := by
  induction text using cut_induction with
  | nil => exact fun loc => ⟨_, _, .finish loc⟩
  | gap c cs width hscan ih =>
      intro loc
      obtain ⟨found, stop, hrest⟩ := ih (loc.after ((c :: cs).take width))
      exact ⟨found, stop, .gap hscan hrest⟩
  | token c cs kind width hscan ih =>
      intro loc
      obtain ⟨found, stop, hrest⟩ := ih (loc.after ((c :: cs).take width))
      exact ⟨_, stop, .token hscan hrest⟩
  | fault c cs cause before hscan => exact fun loc => ⟨_, _, .fault hscan⟩
  | valueless c cs text hscan => exact fun loc => ⟨_, _, .valueless hscan⟩

namespace Walk

variable {loc : Location} {text : List Char} {found : List (Token × Nat)} {stop : Option Stop}

/-- Each token but the mark of the end takes a character. -/
theorem width_pos (h : Walk loc text found stop) : ∀ piece ∈ found, piece.1.kind ≠ .eof → 1 ≤ piece.2 := by
  induction h with
  | finish loc => simp
  | gap _ _ ih => exact ih
  | token hscan _ ih =>
      intro piece hpiece hkind
      rcases List.mem_cons.mp hpiece with rfl | hpiece
      · exact scan_token_width_pos hscan
      · exact ih piece hpiece hkind
  | fault _ => simp
  | valueless _ => simp

/-- There are no more tokens than characters, apart from the mark of the end. -/
theorem length_le (h : Walk loc text found stop) : found.length ≤ text.length + 1 := by
  induction h with
  | finish loc => exact Nat.le_refl 1
  | gap _ _ ih =>
      rw [List.length_drop] at ih
      omega
  | @token loc c cs kind width found stop hscan _ ih =>
      have hpos := scan_token_width_pos hscan
      have hle := scan_token_width_le hscan
      rw [List.length_drop] at ih
      rw [List.length_cons]
      omega
  | fault _ => exact Nat.zero_le _
  | valueless _ => exact Nat.zero_le _

/-- The loop finds the tokens of the text. -/
theorem tokensFrom_eq (h : Walk loc text found stop) :
    tokensFrom 0 loc text = stop.elim (.ok (found.map Prod.fst)) .error := by
  induction h with
  | finish loc => rfl
  | gap hscan _ ih => rw [tokensFrom_gap hscan, ih]
  | @token loc c cs kind width found stop hscan _ ih =>
      rw [tokensFrom_token hscan, ih]
      cases stop <;> rfl
  | fault hscan => rw [tokensFrom, hscan]; rfl
  | valueless hscan => rw [tokensFrom, hscan]; rfl

end Walk

theorem Walk.tokenize_eq {source : String} {file : Option String} {found : List (Token × Nat)} {stop : Option Stop}
    (h : Walk (.start file) source.toList found stop) :
    tokenize source file = stop.elim (.ok (found.map Prod.fst)) fun s => .error (s.toFailure source.toList) := by
  rw [tokenize, h.tokensFrom_eq]
  cases stop <;> rfl

end ScriptLens.Token

namespace ScriptLens.Syntax

open Descent

/-! ### Programs -/

variable {tokens : List Token}

theorem Ended.start_eq (h : Ended tokens) :
    Reading.start tokens = .statement none (.program [] (tokenAt tokens 0).location) := by
  obtain ⟨init, last, rfl, -, -⟩ := h
  rw [Reading.start]
  cases init <;> rfl

/-- The procedure for programs comes to what reading comes to, and to a program only at the mark of the end. -/
theorem Ended.programOf_of_runs (h : Ended tokens) {outcome : Except Complaint Program} {stop : Nat}
    (hrun : Runs tokens (body .program) 0 outcome stop) :
    programOf tokens = outcome.mapError (⟨·, tokenAt tokens stop⟩) ∧
      ∀ p, outcome = .ok p → stop = tokens.length - 1 := by
  have hend := h.endsAt
  have hagree := agreement_of_runs hend (Nat.zero_le _) hrun
  obtain ⟨-, hstop, hvalue⟩ := hend.progress_of_runs (Nat.zero_le _) hrun
  simp only [Agreement, Same, List.drop_zero, ← h.start_eq] at hagree
  cases outcome with
  | error complaint => exact ⟨programOf_of_misfit hagree, fun _ hp => nomatch hp⟩
  | ok p =>
      obtain ⟨_, rfl, hfinal⟩ := hagree
      have heof : (tokenAt tokens stop).kind = .eof := (hvalue p rfl).2
      have hlast := (hend.eof_iff hstop).mp heof
      refine ⟨programOf_of_finished ?_, fun _ _ => hlast⟩
      have hstep : (Reading.statement none (.program p.body p.location)).step (tokenAt tokens stop) =
          .ok (.complete p) := by
        simp [Reading.step, Scope.begin, heof, Scope.finish]
      rw [hfinal, Mirrors.takeAll_ok hend hstop hstep, List.drop_eq_nil_of_le]
      · rfl
      · rw [hend.length]
        omega

/-- Every text is cut into tokens, each of which takes a character.  On all tokens of which the last and no other marks
the end, every procedure of the grammar runs to an end, in one way only, and if it gives something back it has moved on,
apart from the loops that may find nothing to take (`Call.Gains`); nothing that is left to do goes back or passes the
mark of the end; and the procedure for programs comes to the program or the complaint that reading comes to, and to a
program only at the mark of the end. -/
theorem front_end_terminates :
    (∀ (source : String) (file : Option String), ∃ found stop,
      Token.Walk (.start file) source.toList found stop ∧
      (∀ piece ∈ found, piece.1.kind ≠ .eof → 1 ≤ piece.2) ∧
      found.length ≤ source.toList.length + 1 ∧
      Token.tokenize source file =
        stop.elim (.ok (found.map Prod.fst)) (fun s => .error (s.toFailure source.toList)) ∧
      (stop = none → Ended (found.map Prod.fst))) ∧
    ∀ tokens : List Token, Ended tokens →
      (∀ (α : Type) (f : Call α) (pos : Nat), pos ≤ tokens.length - 1 → ∃ outcome stop,
        Runs tokens (body f) pos outcome stop ∧ pos ≤ stop ∧ stop ≤ tokens.length - 1 ∧
        (f.Gains tokens pos → ∀ value, outcome = .ok value → pos < stop) ∧
        ∀ outcome' stop', Runs tokens (body f) pos outcome' stop' → outcome' = outcome ∧ stop' = stop) ∧
      (∀ (α : Type) (act : Act α) (pos stop : Nat) (outcome : Except Complaint α), pos ≤ tokens.length - 1 →
        Runs tokens act pos outcome stop → pos ≤ stop ∧ stop ≤ tokens.length - 1) ∧
      ∃ outcome stop, Runs tokens (body .program) 0 outcome stop ∧
        programOf tokens = outcome.mapError (⟨·, tokenAt tokens stop⟩) ∧
        ∀ p, outcome = .ok p → stop = tokens.length - 1 := by
  refine ⟨fun source file => ?_, fun tokens hended => ⟨fun α f pos hpos => ?_, ?_, ?_⟩⟩
  · obtain ⟨found, stop, hwalk⟩ := Token.exists_walk source.toList (.start file)
    refine ⟨found, stop, hwalk, hwalk.width_pos, hwalk.length_le, hwalk.tokenize_eq, ?_⟩
    rintro rfl
    exact ended_tokenize hwalk.tokenize_eq
  · obtain ⟨outcome, stop, hrun, hle, hlast, hvalue⟩ := hended.endsAt.exists_runs f hpos
    refine ⟨outcome, stop, hrun, hle, hlast, fun hgains value hok => (hvalue value hok).1 hgains, ?_⟩
    exact fun outcome' stop' hrun' => hrun'.unique hrun
  · exact fun α act pos stop outcome hpos hrun => ⟨hrun.le, hrun.le_last hended.endsAt hpos⟩
  · obtain ⟨outcome, stop, hrun, -⟩ := hended.endsAt.exists_runs .program (Nat.zero_le _)
    exact ⟨outcome, stop, hrun, hended.programOf_of_runs hrun⟩

/-- The tokens of `return`, behind which a value may be missing. -/
def loneReturn : List Token :=
  [⟨.keyword .returnWord, ⟨1, 1, 0, none⟩⟩, ⟨.eof, ⟨1, 7, 6, none⟩⟩]

theorem front_end_terminates_return :
    (∃ found, Token.Walk (.start none) "return".toList found none ∧ found.map Prod.fst = loneReturn ∧
      ∀ piece ∈ found, piece.1.kind ≠ .eof → 1 ≤ piece.2) ∧
    (∃ outcome stop, Runs loneReturn (body (.statement none)) 0 outcome stop ∧ stop ≤ 1 ∧
      ∀ s, outcome = .ok s → 0 < stop) ∧
    ∃ p, Runs loneReturn (body .program) 0 (.ok p) 1 ∧ programOf loneReturn = .ok p := by
  have htokens : Token.tokenize "return" none = .ok loneReturn := rfl
  have hprogram : ∃ p, programOf loneReturn = .ok p := ⟨_, rfl⟩
  obtain ⟨found, stop, hwalk, hwidth, -, htokenize, hended⟩ := front_end_terminates.1 "return" none
  obtain rfl : stop = none := by
    cases stop with
    | none => rfl
    | some reason => cases htokens.symm.trans htokenize
  have hfound : found.map Prod.fst = loneReturn := Except.ok.inj (htokenize.symm.trans htokens)
  obtain ⟨hcalls, -, outcome, stop, hrun, hcomes, hstop⟩ := front_end_terminates.2 loneReturn (hfound ▸ hended rfl)
  obtain ⟨first, mid, hfirst, -, hmid, hgains, -⟩ := hcalls Stmt (.statement none) 0 (Nat.zero_le _)
  refine ⟨⟨found, hwalk, hfound, hwidth⟩, ⟨first, mid, hfirst, hmid, hgains trivial⟩, ?_⟩
  obtain ⟨p, hp⟩ := hprogram
  cases outcome with
  | error complaint => cases hp.symm.trans hcomes
  | ok q =>
      obtain rfl := hstop q rfl
      exact ⟨q, hrun, hcomes⟩

end ScriptLens.Syntax
