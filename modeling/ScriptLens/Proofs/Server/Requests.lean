import ScriptLens.Server.Handler

/-!
# Requests to a backend that may fail

Each request of an editor calls one operation of the backend.  `Request.operation` says which, and what an answer
and a publication are made of.  Whatever the operation gives, the server comes through with it: a result is answered
or published, and a failure is reported and answered with nothing.  Two requests have no such guard.  When closing a
document or resolving a completion fails, the failure is passed on.

Main statement: `receive_outcome`, from the relation `Accounts`.
-/

namespace ScriptLens.Server

variable {σ : Type}

/-! ### What requests ask for -/

/-- Make something of the result of an operation. -/
def Operation.map {α β : Type} (run : Operation σ α) (f : α → β) : Operation σ β :=
  fun state => ⟨(run state).result.map f, (run state).state, (run state).events⟩

/-- The answer to a request that only publishes diagnostics. -/
def published (uri : String) (diagnostics : List Diagnostic) : Answer × List Publication :=
  (.nothing, [⟨uri, diagnostics⟩])

/-- The answer to a request that may have none. -/
def answered {α : Type} (answer : α → Answer) (value? : Option α) : Answer × List Publication :=
  ((value?.map answer).getD .nothing, [])

/-- The operation that a request calls, with the answer and the publications that its result is for.  `text` has
the texts of the documents as the editor has them. -/
def Request.operation (b : Backend σ) (text : String → String) :
    Request → Operation σ (Answer × List Publication)
  | .initialized => fun state => ⟨.ok (.nothing, []), state, []⟩
  | .stop => fun state => ⟨.ok (.nothing, []), state, []⟩
  | .didOpen uri new => (b.openDocument uri new).map (published uri)
  | .didChange uri texts => (b.changeDocument uri (texts.getLast?.getD (text uri))).map (published uri)
  | .didSave uri => (b.changeDocument uri (text uri)).map (published uri)
  | .didClose uri => (b.closeDocument uri).map (published uri)
  | .completion uri line character => (b.completions uri line character).map fun items =>
      (.completions items, [])
  | .resolve item => (b.resolve item).map fun full => (.resolved full, [])
  | .hover uri line character => (b.hover uri line character).map (answered .hover)
  | .definition uri line character => (b.definition uri line character).map (answered .definition)
  | .signature uri line character => (b.signature uri line character).map (answered .signature)
  | .outline uri => (b.outline uri).map fun entries => (.outline entries, [])
  | .formatting uri tabSize => (b.format uri tabSize).map fun changes => (.edits changes, [])

/-- The numbers that a request carries. -/
def Request.numbers : Request → List Int
  | .completion _ line character => [line, character]
  | .hover _ line character => [line, character]
  | .definition _ line character => [line, character]
  | .signature _ line character => [line, character]
  | .formatting _ tabSize => [tabSize]
  | _ => []

/-- The numbers of a request are numbers of the protocol.  Any other request is refused before it is handled. -/
def Request.WellFormed (r : Request) : Prop :=
  ∀ n ∈ r.numbers, 0 ≤ n ∧ n ≤ maxFieldValue

instance (r : Request) : Decidable r.WellFormed :=
  inferInstanceAs (Decidable (∀ n ∈ r.numbers, 0 ≤ n ∧ n ≤ maxFieldValue))

/-- The requests whose failures are passed on. -/
def Request.passesOn : Request → Bool
  | .didClose _ => true
  | .resolve _ => true
  | _ => false

/-! ### Runs of a server -/

/-- A request, and the texts of the documents as the editor has them when it comes in. -/
structure Call where
  workspace : Std.HashMap String String
  request : Request

/-- The text of a document as the editor has it when a request comes in. -/
def Call.text (c : Call) (uri : String) : String :=
  c.workspace[uri]?.getD ""

/-- What a server does when a request comes in. -/
def State.receive (b : Backend σ) (s : State σ) (c : Call) : Reaction σ :=
  handle b { s with workspace := c.workspace } c.request

/-- A server after some requests.  A request that fails leaves it with what was changed until then. -/
def State.after (b : Backend σ) (s : State σ) (calls : List Call) : State σ :=
  calls.foldl (fun s c => (s.receive b c).state) s

/-- A server of a session, before the first request. -/
def State.initial : State Session :=
  { backend := {} }

/-! ### One request -/

/-- A reaction accounts for the outcome of an operation: the backend is left as the operation left it, a result is
answered and published, and after a failure nothing is published and the answer is nothing or the failure. -/
structure Accounts (passesOn : Bool) (outcome : Outcome σ (Answer × List Publication))
    (r : Reaction σ) : Prop where
  state : r.state.backend = outcome.state
  done : ∀ answer publications, outcome.result = .ok (answer, publications) →
    r.answer = .ok answer ∧ r.published = publications
  failed : ∀ e, outcome.result = .error e →
    r.published = [] ∧ r.answer = if passesOn then .error e else .ok .nothing

theorem accounts_report (s : State σ) (event : Event) :
    Accounts false ⟨.ok (.nothing, []), s.backend, []⟩ (s.report event) where
  state := rfl
  done answer publications h := by
    obtain ⟨rfl, rfl⟩ := Prod.mk.inj (Except.ok.inj h)
    exact ⟨rfl, rfl⟩
  failed e h := by cases h

theorem accounts_publish (s : State σ) (uri : String) (run : Operation σ (List Diagnostic)) :
    Accounts true (run.map (published uri) s.backend) (s.publish uri run) := by
  rw [State.publish, Operation.map]
  cases hresult : (run s.backend).result with
  | ok diagnostics =>
      refine ⟨rfl, fun answer publications h => ?_, fun e h => by cases h⟩
      obtain ⟨rfl, rfl⟩ := Prod.mk.inj (Except.ok.inj h)
      exact ⟨rfl, rfl⟩
  | error failure =>
      refine ⟨rfl, fun answer publications h => (by cases h), fun e h => ?_⟩
      obtain rfl : failure = e := Except.error.inj h
      exact ⟨rfl, rfl⟩

theorem accounts_query {α : Type} (s : State σ) (run : Operation σ α) (answer : α → Answer) :
    Accounts true (run.map (fun value => (answer value, [])) s.backend) (s.query run answer) := by
  rw [State.query, Operation.map]
  cases hresult : (run s.backend).result with
  | ok value =>
      refine ⟨rfl, fun given publications h => ?_, fun e h => by cases h⟩
      obtain ⟨rfl, rfl⟩ := Prod.mk.inj (Except.ok.inj h)
      exact ⟨rfl, rfl⟩
  | error failure =>
      refine ⟨rfl, fun given publications h => (by cases h), fun e h => ?_⟩
      obtain rfl : failure = e := Except.error.inj h
      exact ⟨rfl, rfl⟩

/-- A guard turns the failure into no answer and changes nothing else. -/
theorem Accounts.guarded {outcome : Outcome σ (Answer × List Publication)} {r : Reaction σ}
    (h : Accounts true outcome r) (task : Task) (uri : String) :
    Accounts false outcome (r.guarded task uri) := by
  rw [Reaction.guarded]
  cases hresult : outcome.result with
  | ok value =>
      obtain ⟨hanswer, hpublished⟩ := h.done value.1 value.2 hresult
      rw [hanswer]
      refine ⟨h.state, fun answer publications hvalue => ?_, fun e hvalue => ?_⟩
      · exact h.done answer publications hvalue
      · cases hresult.symm.trans hvalue
  | error failure =>
      obtain ⟨hpublished, hanswer⟩ := h.failed failure hresult
      rw [hanswer, if_pos rfl]
      refine ⟨h.state, fun answer publications hvalue => ?_, fun e hvalue => ?_⟩
      · cases hresult.symm.trans hvalue
      · exact ⟨hpublished, rfl⟩

theorem Accounts.after {passesOn : Bool} {outcome : Outcome σ (Answer × List Publication)}
    {r : Reaction σ} (h : Accounts passesOn outcome r) (event : Event) :
    Accounts passesOn outcome (r.after event) :=
  ⟨h.state, h.done, h.failed⟩

theorem withPosition_of_bounds {line character : Int} (hline : 0 ≤ line ∧ line ≤ maxFieldValue)
    (hcharacter : 0 ≤ character ∧ character ≤ maxFieldValue) (s : State σ)
    (next : Position → Reaction σ) :
    withPosition s line character next = next ⟨line.toNat, character.toNat⟩ := by
  rw [withPosition, Position.make, checkBound, if_pos hline, checkBound, if_pos hcharacter]
  rfl

/-- A query about a position that the protocol has. -/
theorem accounts_query_at {α : Type} (s : State σ) {line character : Int}
    (h : ∀ n ∈ [line, character], 0 ≤ n ∧ n ≤ maxFieldValue) (run : Int → Int → Operation σ α)
    (answer : α → Answer) (task : Task) (uri : String) :
    Accounts false ((run line character).map (fun value => (answer value, [])) s.backend)
      (withPosition s line character fun p =>
        (s.query (run p.line p.character) answer).guarded task uri) := by
  have hline := h line List.mem_cons_self
  have hcharacter := h character (List.mem_cons_of_mem _ List.mem_cons_self)
  rw [withPosition_of_bounds hline hcharacter]
  dsimp only
  rw [Int.toNat_of_nonneg hline.1, Int.toNat_of_nonneg hcharacter.1]
  exact (accounts_query s (run line character) answer).guarded task uri

theorem accounts_synchronize (b : Backend σ) (s : State σ) (uri : String) :
    Accounts false ((b.changeDocument uri (s.workspaceText uri)).map (published uri) s.backend)
      (synchronize b s uri) :=
  (accounts_publish s uri _).guarded .analysis uri

/-- The server accounts for the operation that a request calls. -/
theorem accounts_handle (b : Backend σ) (s : State σ) {r : Request} (h : r.WellFormed) :
    Accounts r.passesOn (r.operation b s.workspaceText s.backend) (handle b s r) := by
  cases r with
  | initialized => exact accounts_report s .initialized
  | stop => exact accounts_report s .stopping
  | didOpen uri text =>
      exact (accounts_publish { s with workspace := s.workspace.insert uri text } uri
        (b.openDocument uri text)).guarded .analysis uri
  | didChange uri texts =>
      rw [handle, Request.operation]
      cases texts.getLast? with
      | none => exact (accounts_synchronize b s uri).after (.changed uri)
      | some text =>
          have hsync := accounts_synchronize b { s with workspace := s.workspace.insert uri text } uri
          rw [State.workspaceText, Std.HashMap.getElem?_insert_self] at hsync
          exact hsync.after (.changed uri)
  | didSave uri => exact (accounts_synchronize b s uri).after (.saved uri)
  | didClose uri =>
      exact accounts_publish { s with workspace := s.workspace.erase uri } uri (b.closeDocument uri)
  | completion uri line character =>
      exact accounts_query_at s h (b.completions uri) .completions .completion uri
  | resolve item => exact accounts_query s (b.resolve item) .resolved
  | hover uri line character => exact accounts_query_at s h (b.hover uri) _ .hover uri
  | definition uri line character => exact accounts_query_at s h (b.definition uri) _ .definition uri
  | signature uri line character => exact accounts_query_at s h (b.signature uri) _ .signature uri
  | outline uri => exact (accounts_query s (b.outline uri) .outline).guarded .outline uri
  | formatting uri tabSize =>
      have hbounds := h tabSize List.mem_cons_self
      rw [handle, checkBound, if_pos hbounds]
      dsimp only
      rw [Int.toNat_of_nonneg hbounds.1]
      exact (accounts_query s (b.format uri tabSize) .edits).guarded .formatting uri

theorem accounts_receive (b : Backend σ) (s : State σ) {c : Call} (h : c.request.WellFormed) :
    Accounts c.request.passesOn (c.request.operation b c.text s.backend) (s.receive b c) :=
  accounts_handle b { s with workspace := c.workspace } h

/-! ### Every request of a run -/

/-- Let a server work with any backend, each operation of which may fail at any time, and let any requests have come
in.  For the next request, the server answers and publishes what the operation of the backend gave.  If the operation
failed, nothing is published, and the answer is nothing; only the failures of closing a document and of resolving a
completion are passed on.  So a request comes through unless it is one of these two and fails. -/
theorem receive_outcome (b : Backend σ) (s : State σ) (earlier : List Call) (c : Call)
    (h : c.request.WellFormed) :
    let server := s.after b earlier
    let outcome := c.request.operation b c.text server.backend
    let reaction := server.receive b c
    reaction.state.backend = outcome.state ∧
      (∀ answer publications, outcome.result = .ok (answer, publications) →
        reaction.answer = .ok answer ∧ reaction.published = publications) ∧
      (∀ e, outcome.result = .error e → reaction.published = [] ∧
        reaction.answer = if c.request.passesOn then .error e else .ok .nothing) ∧
      ((∃ answer, reaction.answer = .ok answer) ↔
        ¬(c.request.passesOn = true ∧ ∃ e, outcome.result = .error e)) := by
  intro server outcome reaction
  have haccounts : Accounts c.request.passesOn outcome reaction := accounts_receive b server h
  refine ⟨haccounts.state, haccounts.done, haccounts.failed, ?_⟩
  cases hresult : outcome.result with
  | ok value =>
      have hanswer := (haccounts.done value.1 value.2 hresult).1
      simp [hanswer]
  | error e =>
      have hanswer := (haccounts.failed e hresult).2
      cases hpasses : c.request.passesOn <;> simp [hanswer, hpasses]

/-- A session that can neither show anything, nor close a document, nor resolve a completion. -/
def brokenBackend : Backend Session :=
  { Backend.ofSession Reader.standard with
    hover := fun _ _ _ => look fun _ => .error (.component "boom")
    closeDocument := fun _ => look fun _ => .error (.component "boom")
    resolve := fun _ => look fun _ => .error (.component "boom") }

/-- Showing something fails in an open document. -/
theorem receive_outcome_broken_hover :
    (Request.hover "a" 0 4).WellFormed ∧
      ((State.initial.after brokenBackend [⟨∅, .didOpen "a" "let x"⟩]).receive brokenBackend
        ⟨∅, .hover "a" 0 4⟩).published = [] ∧
      ((State.initial.after brokenBackend [⟨∅, .didOpen "a" "let x"⟩]).receive brokenBackend
        ⟨∅, .hover "a" 0 4⟩).answer = .ok .nothing :=
  ⟨by decide, (receive_outcome brokenBackend _ _ ⟨∅, .hover "a" 0 4⟩ (by decide)).2.2.1
    (.component "boom") rfl⟩

/-- The failures of closing a document and of resolving a completion are not turned into no answer. -/
theorem failures_passed_on :
    (State.initial.receive brokenBackend ⟨∅, .didClose "a"⟩).answer = .error (.component "boom") ∧
      (State.initial.receive brokenBackend ⟨∅, .resolve { label := "x" }⟩).answer =
        .error (.component "boom") :=
  ⟨rfl, rfl⟩

end ScriptLens.Server
