import ScriptLens.Proofs.Layout.Edits
import ScriptLens.Proofs.Query.Returns
import ScriptLens.Proofs.Session.History
import ScriptLens.Proofs.Symbol.Walks
import ScriptLens.Server.Backend

/-!
# When queries return

Any two integers name a place of a document, and any integer asks for some indentation.  The positions in an answer
come from the present text or from the symbols of the last program, which may belong to an earlier text.  In texts
that are not too long for the editor both kinds of position are numbers that the protocol has.  So only the host can
make a query fail: every query but formatting walks over the program of the document, which may be too deep, and
formatting builds a text, which may be too long.

Main statement: `queries_outcome`.
-/

namespace ScriptLens

open Text

/-! ### All documents of a session -/

/-- An operation returns, and its answer is of a certain kind. -/
def Outcome.Returns {σ α : Type} (outcome : Outcome σ α) (kind : α → Prop) : Prop :=
  ∃ answer, outcome.result = .ok answer ∧ kind answer

/-- An operation returns an answer of a certain kind if a condition holds, and fails in a certain way otherwise. -/
def Outcome.ReturnsExactly {σ α : Type} (outcome : Outcome σ α) (condition : Prop) (kind : α → Prop)
    (failed : Failure → Prop) : Prop :=
  (condition → outcome.Returns kind) ∧
    (¬ condition → ∃ failure, outcome.result = .error failure ∧ failed failure)

/-- A reader that reads a text as the language has it, if it reads the text at all.  It may refuse more texts than the
reader of the language, as it does on a host that does not let it go deep enough. -/
def Reader.Faithful (read : Reader) : Prop :=
  ∀ ⦃text uri : String⦄ ⦃p : Program⦄, read text uri = .ok p → Reader.standard text uri = .ok p

namespace Session

theorem mem_of_mem_textsGiven {uri text : String} {notices : List Notice} (h : text ∈ textsGiven uri notices) :
    ∃ notice ∈ notices, text ∈ notice.text? := by
  obtain ⟨notice, hnotice, htext⟩ := List.mem_filterMap.mp h
  have hreversed := (List.takeWhile_prefix _).subset hnotice
  exact ⟨notice, List.mem_of_mem_filter (List.mem_reverse.mp hreversed), htext⟩

/-- The program of a document was read from a text that the document was given. -/
theorem exists_text_of_program? {read : Reader} {notices : List Notice} {uri : String} {p : Program}
    (h : (run read notices).program? uri = some p) :
    ∃ text ∈ textsGiven uri notices, read text uri = .ok p := by
  rw [(agrees_run read notices).program uri] at h
  obtain ⟨text, hmem, hread⟩ := List.exists_of_findSome?_eq_some h
  refine ⟨text, hmem, ?_⟩
  cases hresult : read text uri with
  | error failure =>
      rw [hresult] at hread
      cases hread
  | ok program =>
      rw [hresult] at hread
      rw [Option.some.inj hread]

/-- The texts of a session are not too long for the editor. -/
def ShortTexts (notices : List Notice) : Prop :=
  ∀ notice ∈ notices, ∀ text ∈ notice.text?, text.length < 2147483648

/-- The documents of a session are not too long, and neither are the texts that their programs were read from. -/
def Short (s : Session) : Prop :=
  ∀ ⦃uri : String⦄ ⦃snapshot : Query.Snapshot⦄, s.snapshot? uri = some snapshot → snapshot.Short

theorem ShortTexts.short {notices : List Notice} (h : ShortTexts notices) {read : Reader}
    (hfaithful : read.Faithful) : (run read notices).Short := by
  intro uri snapshot hsnapshot
  have hgiven : ∀ text ∈ textsGiven uri notices, text.length < 2147483648 := by
    intro text htext
    obtain ⟨notice, hnotice, hmem⟩ := mem_of_mem_textsGiven htext
    exact h notice hnotice text hmem
  obtain ⟨text, htext, rfl⟩ := Option.map_eq_some_iff.mp hsnapshot
  refine ⟨?_, ?_⟩
  · rw [(agrees_run read notices).text uri] at htext
    exact hgiven text (List.mem_of_mem_head? htext)
  · intro symbol hsymbol
    cases hprogram : (run read notices).program? uri with
    | none => simp [Query.Snapshot.symbols, hprogram] at hsymbol
    | some p =>
        replace hsymbol : symbol ∈ p.symbols := by
          simpa [Query.Snapshot.symbols, hprogram] using hsymbol
        obtain ⟨earlier, hearlier, hread⟩ := exists_text_of_program? hprogram
        exact ⟨earlier.length, hgiven earlier hearlier, inside_of_mem_symbols (hfaithful hread) hsymbol⟩

/-! ### What can make a query fail -/

section

variable {s : Session} {uri : String} {host : Host}

/-- A host lets the walk over the program of an open document go as deep as it has to. -/
def Walkable (s : Session) (uri : String) (host : Host) : Prop :=
  ∀ snapshot ∈ s.snapshot? uri, ∀ p ∈ snapshot.program, host.reaches (blockDepth p.body) = true

theorem walk_of_walkable (h : s.Walkable uri host) : s.walk uri host = .ok () := by
  rw [walk]
  split
  · rfl
  · rename_i p hp
    obtain ⟨snapshot, hsnapshot, hprogram⟩ := Option.bind_eq_some_iff.mp hp
    rw [collect_eq, if_pos (h snapshot hsnapshot p hprogram)]
    rfl

theorem walk_of_not_walkable (h : ¬ s.Walkable uri host) : s.walk uri host = .error .tooDeep := by
  unfold Walkable at h
  push Not at h
  obtain ⟨snapshot, hsnapshot, p, hprogram, hdeep⟩ := h
  have hp : (s.snapshot? uri).bind (·.program) = some p :=
    Option.bind_eq_some_iff.mpr ⟨snapshot, hsnapshot, hprogram⟩
  rw [walk, hp]
  dsimp only
  rw [collect_eq, if_neg hdeep]
  rfl

/-- A query that returns on a host without limits returns on every host that the program is not too deep for. -/
theorem lookAt_returns {α : Type} {query : Session → Except Failure α} {kind : α → Prop}
    (hquery : ∃ answer, query s = .ok answer ∧ kind answer) :
    (Server.lookAt host uri query s).ReturnsExactly (s.Walkable uri host) kind (· = .tooDeep) := by
  have hresult : (Server.lookAt host uri query s).result = (do s.walk uri host; query s) := rfl
  refine ⟨fun hwalk => ?_, fun hdeep => ⟨.tooDeep, ?_, rfl⟩⟩
  · obtain ⟨answer, hanswer, hkind⟩ := hquery
    refine ⟨answer, ?_, hkind⟩
    rw [hresult, walk_of_walkable hwalk]
    exact hanswer
  · rw [hresult, walk_of_not_walkable hdeep]
    rfl

theorem Short.text (h : s.Short) {text : String} (htext : s.text? uri = some text) :
    text.length < 2147483648 := by
  have hsnapshot : s.snapshot? uri = some ⟨text, uri, s.program? uri⟩ := by
    rw [snapshot?, htext]
    rfl
  exact (h hsnapshot).source

theorem Short.hover (h : s.Short) (uri : String) (line character : Int) :
    ∃ answer, s.hover uri line character = .ok answer ∧ ∀ hover ∈ answer, hover.range.Bounded := by
  rw [Session.hover]
  split
  · exact ⟨none, rfl, by simp⟩
  · exact (h ‹_›).hover line character

theorem Short.definition (h : s.Short) (uri : String) (line character : Int) :
    ∃ answer, s.definition uri line character = .ok answer ∧ ∀ target ∈ answer, target.range.Bounded := by
  rw [Session.definition]
  split
  · exact ⟨none, rfl, by simp⟩
  · exact (h ‹_›).definition line character

theorem Short.outline (h : s.Short) (uri : String) :
    ∃ entries, s.outline uri = .ok entries ∧ ∀ entry ∈ entries, entry.range.Bounded := by
  rw [Session.outline]
  split
  · exact ⟨[], rfl, by simp⟩
  · exact (h ‹_›).outline

theorem Short.signature (h : s.Short) (uri : String) (line character : Int) :
    ∀ help ∈ s.signature uri line character, help.activeParameter ≤ 2147483647 := by
  intro help hhelp
  obtain ⟨snapshot, hsnapshot, hsignature⟩ := Option.bind_eq_some_iff.mp hhelp
  exact (h hsnapshot).signature hsignature

theorem Short.format (h : s.Short) {tabSize : Int}
    (hholds : ∀ text ∈ s.text? uri, host.holds (Layout.format text tabSize).length = true) :
    ∃ edits, s.format uri tabSize host = .ok edits ∧ ∀ edit ∈ edits, edit.range.Bounded := by
  rw [Session.format]
  split
  · exact ⟨[], rfl, by simp⟩
  · rename_i text htext
    have hshort := h.text htext
    refine ⟨_, Layout.edits_of_holds hshort (hholds text htext), ?_⟩
    intro edit hedit
    split at hedit
    · cases hedit
    · obtain rfl := List.mem_singleton.mp hedit
      have hlength : text.toList.length < 2147483648 := by
        rwa [String.length_toList]
      have hcount : text.toList.count '\n' ≤ text.toList.length := List.count_le_length
      have hwidth := lastWidth_le text.toList
      refine ⟨⟨?_, ?_⟩, ⟨?_, ?_⟩⟩ <;> dsimp only <;> omega

/-- Formatting fails with a length that the host cannot hold, if it cannot hold the formatted text. -/
theorem format_of_not_holds {tabSize : Int}
    (hholds : ¬ ∀ text ∈ s.text? uri, host.holds (Layout.format text tabSize).length = true) :
    ∃ failure, s.format uri tabSize host = .error failure ∧
      ∃ length, failure = .tooLong length ∧ host.holds length = false := by
  push Not at hholds
  obtain ⟨text, htext, hlong⟩ := hholds
  have houtcome := Layout.formatWithin_outcome host text tabSize
  rw [if_neg hlong] at houtcome
  obtain ⟨length, hformat, hlength, -⟩ := houtcome
  refine ⟨.tooLong length, ?_, length, rfl, hlength⟩
  rw [Session.format, Option.mem_def.mp htext]
  dsimp only
  rw [Layout.edits, hformat]
  rfl

end

/-- After documents were opened, changed and closed with texts of less than `2 ^ 31` characters, it is up to the host
whether a query returns, whatever line, character and indentation it is asked for.  Formatting returns exactly if the
host can hold the formatted text, and the other queries exactly if the host lets a walk go as deep as the last program
of the document, which may belong to an earlier text.  If they return, the protocol has all numbers of the positions
in the answers, and of the active parameter of a call. -/
theorem queries_outcome {read : Reader} (hfaithful : read.Faithful) {notices : List Notice}
    (h : ShortTexts notices) (host : Host) (uri : String) (line character tabSize : Int) :
    let s := run read notices
    let backend := Server.Backend.ofSession read host
    (backend.completions uri line character s).ReturnsExactly (s.Walkable uri host)
      (fun _ => True) (· = .tooDeep) ∧
    (backend.hover uri line character s).ReturnsExactly (s.Walkable uri host)
      (fun answer => ∀ hover ∈ answer, hover.range.Bounded) (· = .tooDeep) ∧
    (backend.definition uri line character s).ReturnsExactly (s.Walkable uri host)
      (fun answer => ∀ target ∈ answer, target.range.Bounded) (· = .tooDeep) ∧
    (backend.signature uri line character s).ReturnsExactly (s.Walkable uri host)
      (fun answer => ∀ help ∈ answer, help.activeParameter ≤ 2147483647) (· = .tooDeep) ∧
    (backend.outline uri s).ReturnsExactly (s.Walkable uri host)
      (fun entries => ∀ entry ∈ entries, entry.range.Bounded) (· = .tooDeep) ∧
    (backend.format uri tabSize s).ReturnsExactly
      (∀ text ∈ s.text? uri, host.holds (Layout.format text tabSize).length = true)
      (fun edits => ∀ edit ∈ edits, edit.range.Bounded)
      (fun failure => ∃ length, failure = .tooLong length ∧ host.holds length = false) := by
  intro s backend
  have hshort : s.Short := h.short hfaithful
  exact ⟨lookAt_returns ⟨_, rfl, trivial⟩, lookAt_returns (hshort.hover uri line character),
    lookAt_returns (hshort.definition uri line character),
    lookAt_returns ⟨_, rfl, hshort.signature uri line character⟩, lookAt_returns (hshort.outline uri),
    hshort.format, format_of_not_holds⟩

/-- A document whose present text cannot be read, on a host that counts with 64 bits: what its parameter means is
answered from the earlier text, a place far outside of the text is answered too, and so is the greatest indentation,
since nothing is indented. -/
theorem queries_outcome_earlier_program :
    let notices := [.opened "a" "fn f(x) \x7b\x7d", .changed "a" "f(1, x"]
    let s := run .standard notices
    let backend := Server.Backend.ofSession .standard .wide
    Reader.standard.Faithful ∧ ShortTexts notices ∧
    s.text? "a" = some "f(1, x" ∧ (Reader.standard "f(1, x" "a").toOption.isNone = true ∧
    (s.definition "a" 0 5).toOption = some (some ⟨"a", ⟨⟨0, 3⟩, ⟨0, 4⟩⟩⟩) ∧
    (backend.definition "a" 0 5 s).Returns (fun answer => ∀ target ∈ answer, target.range.Bounded) ∧
    (backend.hover "a" (-7) 99999999999 s).Returns (fun answer => ∀ hover ∈ answer, hover.range.Bounded) ∧
    (backend.format "a" 9223372036854775808 s).Returns (fun edits => ∀ edit ∈ edits, edit.range.Bounded) := by
  intro notices s backend
  have hfaithful : Reader.standard.Faithful := fun _ _ _ hread => hread
  have hshort : ShortTexts notices := by
    intro notice hnotice text htext
    rcases List.mem_cons.mp hnotice with rfl | hlast
    · cases htext
      decide
    · obtain rfl := List.mem_singleton.mp hlast
      cases htext
      decide
  have hagrees := agrees_run .standard notices
  have htext : s.text? "a" = some "f(1, x" := hagrees.text "a"
  have hanswer : (s.definition "a" 0 5).toOption = some (some ⟨"a", ⟨⟨0, 3⟩, ⟨0, 4⟩⟩⟩) := by
    rw [Session.definition, snapshot?, hagrees.text, hagrees.program]
    decide +kernel
  -- this host has no limit for calls
  have hwalk : s.Walkable "a" .wide := fun _ _ _ _ => rfl
  have hholds : ∀ text ∈ s.text? "a",
      Host.wide.holds (Layout.format text 9223372036854775808).length = true := by
    intro text hmem
    obtain rfl := Option.some.inj (htext.symm.trans hmem)
    decide +kernel
  obtain ⟨-, -, hdefinition, -⟩ := queries_outcome hfaithful hshort .wide "a" 0 5 0
  obtain ⟨-, hhover, -, -, -, hformat⟩ :=
    queries_outcome hfaithful hshort .wide "a" (-7) 99999999999 9223372036854775808
  exact ⟨hfaithful, hshort, htext, by decide +kernel, hanswer, hdefinition.1 hwalk, hhover.1 hwalk,
    hformat.1 hholds⟩

/-- A host that counts with 64 bits cannot indent a line by `2 ^ 63` columns.  A host that lets a walk make four calls
inside each other lets it go over a branch, but not over a branch behind an `else`. -/
theorem queries_beyond_host :
    let indented := run .standard [.opened "a" "if (x) \x7b\ny\n\x7d"]
    let branches := run .standard [.opened "a" "if (x) \x7b\x7d else if (y) \x7b\x7d"]
    ((Server.Backend.ofSession .standard .wide).format "a" 9223372036854775808 indented).result =
      .error (.tooLong 9223372036854775808) ∧
    ((Server.Backend.ofSession .standard { calls := some 4 }).outline "a" branches).result =
      .error .tooDeep := by
  intro indented branches
  refine ⟨?_, ?_⟩
  · have htext : indented.text? "a" = some "if (x) \x7b\ny\n\x7d" := (agrees_run .standard _).text "a"
    have hformat : Layout.formatWithin .wide "if (x) \x7b\ny\n\x7d" 9223372036854775808 =
        .error (.tooLong 9223372036854775808) := by
      rfl
    change indented.format "a" 9223372036854775808 .wide = _
    rw [Session.format, htext]
    dsimp only
    rw [Layout.edits, hformat]
    rfl
  · have hagrees := agrees_run .standard [.opened "a" "if (x) \x7b\x7d else if (y) \x7b\x7d"]
    have hdepth : (branches.program? "a").map (blockDepth ·.body) = some 5 := by
      rw [hagrees.program]
      decide +kernel
    obtain ⟨p, hprogram, hfive⟩ := Option.map_eq_some_iff.mp hdepth
    have hsnapshot : branches.snapshot? "a" =
        some ⟨"if (x) \x7b\x7d else if (y) \x7b\x7d", "a", some p⟩ := by
      rw [snapshot?, hagrees.text, hprogram]
      rfl
    have hdeep : ¬ branches.Walkable "a" { calls := some 4 } := by
      intro hwalk
      have hreaches := hwalk _ hsnapshot p rfl
      rw [hfive] at hreaches
      cases hreaches
    change (do branches.walk "a" { calls := some 4 }; branches.outline "a") = _
    rw [walk_of_not_walkable hdeep]
    rfl

end Session

end ScriptLens
