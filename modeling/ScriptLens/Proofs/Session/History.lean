import ScriptLens.Session.Basic

/-!
# Sessions by their history

The state of a session is a function of what it was told.  For each document only what was told about that
document counts, and only since the document was last closed: its text is the latest one, and its program
is that of the latest text that could be read.  That holds however documents are interleaved, and also
where a text fails and where its diagnostic cannot be built.

Main statement: `run_history`, from the invariant `Agrees`.
-/

namespace ScriptLens.Session

/-- What a session is told about a document. -/
inductive Notice where
  | opened (uri text : String)
  | changed (uri text : String)
  | closed (uri : String)
deriving DecidableEq, Repr

/-- The document that a notice is about. -/
def Notice.uri : Notice → String
  | .opened uri _ => uri
  | .changed uri _ => uri
  | .closed uri => uri

/-- The text that a notice gives to its document. -/
def Notice.text? : Notice → Option String
  | .opened _ text => some text
  | .changed _ text => some text
  | .closed _ => none

/-- Tell a session about a document. -/
def tell (read : Reader) (s : Session) : Notice → Outcome Session (List Diagnostic)
  | .opened uri text => s.openDocument read uri text
  | .changed uri text => s.changeDocument read uri text
  | .closed uri => s.closeDocument uri

/-- A new session after it was told all this in turn.  Whether a notice had a result is of no account. -/
def run (read : Reader) (notices : List Notice) : Session :=
  notices.foldl (fun s notice => (s.tell read notice).state) {}

/-- The texts that were given to a document since it was last closed, the latest first. -/
def textsGiven (uri : String) (notices : List Notice) : List String :=
  ((notices.filter (·.uri = uri)).reverse.takeWhile (·.text?.isSome)).filterMap Notice.text?

/-- What a document has after the texts that were given to it. -/
structure Agrees (read : Reader) (notices : List Notice) (s : Session) : Prop where
  text : ∀ uri, s.text? uri = (textsGiven uri notices).head?
  program : ∀ uri, s.program? uri =
    (textsGiven uri notices).findSome? fun text => (read text uri).toOption

/-! ### One notice -/

/-- A notice gives its own document its text and leaves all others alone. -/
theorem text?_tell (read : Reader) (s : Session) (notice : Notice) (uri : String) :
    (s.tell read notice).state.text? uri =
      if notice.uri = uri then notice.text? else s.text? uri := by
  have hchange : ∀ name text, (s.changeDocument read name text).state.text? uri =
      if name = uri then some text else s.text? uri := by
    intro name text
    rw [changeDocument]
    cases read text name <;> simp [text?, Std.HashMap.getElem?_insert]
  cases notice with
  | opened name text => exact hchange name text
  | changed name text => exact hchange name text
  | closed name =>
      by_cases hname : name = uri <;>
        simp [tell, closeDocument, text?, Std.HashMap.getElem?_erase, Notice.uri, Notice.text?, hname]

/-- A notice gives its own document the program of its text, if it has one, and leaves all others
alone. -/
theorem program?_tell (read : Reader) (s : Session) (notice : Notice) (uri : String) :
    (s.tell read notice).state.program? uri =
      if notice.uri = uri then
        notice.text?.bind fun text => (read text uri).toOption.or (s.program? uri)
      else s.program? uri := by
  have hchange : ∀ name text, (s.changeDocument read name text).state.program? uri =
      if name = uri then (read text uri).toOption.or (s.program? uri) else s.program? uri := by
    intro name text
    rw [changeDocument]
    by_cases hname : name = uri
    · subst hname
      cases read text name <;> simp [program?, Except.toOption]
    · cases read text name <;> simp [program?, Std.HashMap.getElem?_insert, hname]
  cases notice with
  | opened name text => exact hchange name text
  | changed name text => exact hchange name text
  | closed name =>
      by_cases hname : name = uri <;>
        simp [tell, closeDocument, ProgramStore.evict, program?, Std.HashMap.getElem?_erase,
          Notice.uri, Notice.text?, hname]

/-- What a notice adds to the texts of a document. -/
theorem textsGiven_concat (uri : String) (notices : List Notice) (notice : Notice) :
    textsGiven uri (notices ++ [notice]) =
      if notice.uri = uri then
        (notice.text?.map fun text => text :: textsGiven uri notices).getD []
      else textsGiven uri notices := by
  by_cases huri : notice.uri = uri
  · cases htext : notice.text? <;> simp [textsGiven, huri, htext]
  · simp [textsGiven, huri]

/-- A session that agrees with what it was told does so after one more notice. -/
theorem Agrees.tell {read : Reader} {notices : List Notice} {s : Session}
    (h : Agrees read notices s) (notice : Notice) :
    Agrees read (notices ++ [notice]) (s.tell read notice).state where
  text uri := by
    rw [text?_tell, textsGiven_concat, h.text]
    by_cases huri : notice.uri = uri
    · cases htext : notice.text? <;> simp [huri]
    · simp [huri]
  program uri := by
    rw [program?_tell, textsGiven_concat, h.program]
    by_cases huri : notice.uri = uri
    · cases htext : notice.text? with
      | none => simp [huri]
      | some text =>
          cases hread : (read text uri).toOption <;> simp [huri, hread]
    · simp [huri]

/-! ### All notices -/

/-- A session agrees with what it was told. -/
theorem agrees_run (read : Reader) (notices : List Notice) :
    Agrees read notices (run read notices) := by
  have hrun : ∀ (later before : List Notice) (s : Session), Agrees read before s →
      Agrees read (before ++ later) (later.foldl (fun s notice => (s.tell read notice).state) s) := by
    intro later
    induction later with
    | nil =>
        intro before s h
        rwa [List.append_nil]
    | cons notice rest ih =>
        intro before s h
        have hrest := ih (before ++ [notice]) _ (h.tell notice)
        rwa [List.append_assoc] at hrest
  have hempty : Agrees read [] {} := ⟨fun uri => by simp [text?, textsGiven],
    fun uri => by simp [program?, textsGiven]⟩
  exact hrun notices [] {} hempty

/-- A document with a program has a text. -/
theorem Agrees.mem_texts {read : Reader} {notices : List Notice} {s : Session}
    (h : Agrees read notices s) {uri : String} (hp : uri ∈ s.programs) : uri ∈ s.texts := by
  rw [Std.HashMap.mem_iff_isSome_getElem?] at hp ⊢
  have htext : s.texts[uri]? = (textsGiven uri notices).head? := h.text uri
  have hprogram : s.programs[uri]? = (textsGiven uri notices).findSome? _ := h.program uri
  rw [hprogram] at hp
  rw [htext]
  cases hgiven : textsGiven uri notices with
  | nil => simp [hgiven] at hp
  | cons text rest => rfl

/-- The diagnostics of a notice with a text are those of the text. -/
theorem result_tell (read : Reader) (s : Session) {notice : Notice} {text : String}
    (h : notice.text? = some text) :
    (s.tell read notice).result = Diagnosis.ofResult text (read text notice.uri) := by
  have hchange : ∀ name new, (s.changeDocument read name new).result =
      Diagnosis.ofResult new (read new name) := by
    intro name new
    rw [changeDocument]
    cases read new name with
    | ok program => rfl
    | error failure =>
        simp only [Diagnosis.ofResult]
        cases Diagnosis.ofFailure new failure <;> rfl
  cases notice with
  | opened name new =>
      obtain rfl : new = text := Option.some.inj h
      exact hchange name new
  | changed name new =>
      obtain rfl : new = text := Option.some.inj h
      exact hchange name new
  | closed name => simp [Notice.text?] at h

/-- A text that was read has no diagnostics, and one that was not has some, if any can be built. -/
theorem ofResult_eq_nil_iff {α : Type} {source : String} {r : Except Failure α}
    {ds : List Diagnostic} (h : Diagnosis.ofResult source r = .ok ds) :
    ds = [] ↔ ∃ a, r = .ok a := by
  cases r with
  | ok a =>
      obtain rfl : [] = ds := Except.ok.inj h
      simp
  | error failure =>
      simp only [Diagnosis.ofResult] at h
      cases hone : Diagnosis.ofFailure source failure with
      | error e => simp [hone, bind, Except.bind] at h
      | ok d =>
          obtain rfl : [d] = ds := by simpa [hone, bind, Except.bind, pure, Except.pure] using h
          simp

/-- What a session has of a document and what it answers, by what it was told: the latest text and the
latest program since the document was closed, whatever was told of other documents; no program without a
text; and for each text the diagnostics of that text alone. -/
theorem run_history (read : Reader) (notices : List Notice) :
    (∀ uri,
      (run read notices).text? uri = (textsGiven uri notices).head? ∧
      (run read notices).program? uri =
        (textsGiven uri notices).findSome? fun text => (read text uri).toOption) ∧
    (∀ uri others, notices.filter (·.uri = uri) = others.filter (·.uri = uri) →
      (run read notices).text? uri = (run read others).text? uri ∧
      (run read notices).program? uri = (run read others).program? uri) ∧
    (∀ uri, uri ∈ (run read notices).programs → uri ∈ (run read notices).texts) ∧
    ∀ notice text, notice.text? = some text →
      ((run read notices).tell read notice).result =
        Diagnosis.ofResult text (read text notice.uri) ∧
      ∀ ds, ((run read notices).tell read notice).result = .ok ds →
        (ds = [] ↔ ∃ program, read text notice.uri = .ok program) := by
  have hagrees := agrees_run read notices
  refine ⟨fun uri => ⟨hagrees.text uri, hagrees.program uri⟩, ?_, ?_, ?_⟩
  · intro uri others hsame
    have hothers := agrees_run read others
    have hgiven : textsGiven uri notices = textsGiven uri others := by
      rw [textsGiven, textsGiven, hsame]
    rw [hagrees.text, hothers.text, hagrees.program, hothers.program, hgiven]
    exact ⟨rfl, rfl⟩
  · exact fun uri hp => hagrees.mem_texts hp
  · intro notice text htext
    have hresult := result_tell read (run read notices) htext
    refine ⟨hresult, fun ds hds => ?_⟩
    rw [hresult] at hds
    exact ofResult_eq_nil_iff hds

/-- A reader for which only the blank text is a program. -/
def blankReader : Reader :=
  fun text _ => if text.isEmpty then .ok ⟨[], none⟩ else .error (.component "at :2:3")

/-- A document that was read and then broken, while another one came and went: it has its new text and its
old program, as it would have alone, and another broken text gets a diagnostic. -/
theorem run_history_broken_document :
    let notices := [.opened "a" "", .opened "b" "x", .changed "a" "y", .closed "b"]
    let alone := [.opened "a" "", .changed "a" "y"]
    let s := run blankReader notices
    (s.text? "a" = some "y" ∧ s.program? "a" = some ⟨[], none⟩) ∧
    (s.text? "a" = (run blankReader alone).text? "a" ∧
      s.program? "a" = (run blankReader alone).program? "a") ∧
    ("a" ∈ s.programs ∧ "a" ∈ s.texts) ∧
    (s.tell blankReader (.changed "a" "z")).result =
      Diagnosis.ofResult "z" (blankReader "z" "a") ∧
    ∃ ds, (s.tell blankReader (.changed "a" "z")).result = .ok ds ∧ ds ≠ [] := by
  intro notices alone s
  obtain ⟨hstate, halone, hsubset, hresult⟩ := run_history blankReader notices
  have htext : s.text? "a" = some "y" := (hstate "a").1.trans (by decide)
  have hprogram : s.program? "a" = some ⟨[], none⟩ := (hstate "a").2.trans rfl
  have hcached : "a" ∈ s.programs := by
    rw [Std.HashMap.mem_iff_isSome_getElem?]
    exact Option.isSome_iff_exists.mpr ⟨_, hprogram⟩
  obtain ⟨hgiven, hempty⟩ := hresult (.changed "a" "z") "z" rfl
  obtain ⟨ds, hds⟩ : ∃ ds, Diagnosis.ofResult "z" (blankReader "z" "a") = .ok ds := ⟨_, rfl⟩
  refine ⟨⟨htext, hprogram⟩, halone "a" alone rfl, ⟨hcached, hsubset "a" hcached⟩, hgiven, ds,
    hgiven.trans hds, fun hnil => ?_⟩
  obtain ⟨program, hread⟩ := (hempty ds (hgiven.trans hds)).mp hnil
  cases hread

end ScriptLens.Session
