import ScriptLens.Server.Backend

/-!
# Requests

The server answers the requests of an editor.  A request for which the backend fails is reported and
answered with nothing; only closing a document and resolving a completion pass the failure on.
-/

namespace ScriptLens.Server

/-- The name of the server. -/
def name : String := "cursorscript-lsp"

/-- The version of the language tools. -/
def toolVersion : String := "0.1.0"

/-- The version that the server announces. -/
def version : String := "v" ++ toolVersion

/-- A request of an editor. -/
inductive Request where
  | initialized
  | stop
  | didOpen (uri text : String)
  /-- The document took on these texts, one after the other. -/
  | didChange (uri : String) (texts : List String)
  | didSave (uri : String)
  | didClose (uri : String)
  | completion (uri : String) (line character : Int)
  | resolve (item : CompletionItem)
  | hover (uri : String) (line character : Int)
  | definition (uri : String) (line character : Int)
  | signature (uri : String) (line character : Int)
  | outline (uri : String)
  | formatting (uri : String) (tabSize : Int)
deriving DecidableEq, Repr

/-- The answer to a request. -/
inductive Answer where
  | nothing
  | completions (items : List CompletionItem)
  | resolved (item : CompletionItem)
  | hover (value : Hover)
  | definition (value : Target)
  | signature (value : SignatureHelp)
  | outline (entries : List OutlineEntry)
  | edits (edits : List TextEdit)
deriving DecidableEq, Repr

/-- The diagnostics of a document, as they are sent to the editor. -/
structure Publication where
  uri : String
  diagnostics : List Diagnostic
deriving DecidableEq, Repr

/-- A server: the texts of the documents as the editor has them, and the state of the backend. -/
structure State (σ : Type) where
  workspace : Std.HashMap String String := ∅
  backend : σ

/-- What a server does with a request. -/
structure Reaction (σ : Type) where
  answer : Except Failure Answer
  published : List Publication := []
  events : List Event := []
  state : State σ

variable {σ : Type}

namespace State

/-- Do nothing but fail. -/
def refuse (s : State σ) (e : Failure) : Reaction σ :=
  { answer := .error e, state := s }

/-- Do nothing but report an event. -/
def report (s : State σ) (event : Event) : Reaction σ :=
  { answer := .ok .nothing, events := [event], state := s }

/-- Run an operation that gives the diagnostics of a document, and publish them. -/
def publish (s : State σ) (uri : String) (run : Operation σ (List Diagnostic)) : Reaction σ :=
  let outcome := run s.backend
  let after := { s with backend := outcome.state }
  match outcome.result with
  | .ok diagnostics =>
      { answer := .ok .nothing
        published := [⟨uri, diagnostics⟩]
        events := outcome.events
        state := after }
  | .error e => { answer := .error e, events := outcome.events, state := after }

/-- Run an operation and answer with its result. -/
def query {α : Type} (s : State σ) (run : Operation σ α) (answer : α → Answer) : Reaction σ :=
  let outcome := run s.backend
  { answer := outcome.result.map answer
    events := outcome.events
    state := { s with backend := outcome.state } }

/-- The text of a document as the editor has it. -/
def workspaceText (s : State σ) (uri : String) : String :=
  s.workspace[uri]?.getD ""

end State

/-- Turn a failure into a report and no answer. -/
def Reaction.guarded (r : Reaction σ) (task : Task) (uri : String) : Reaction σ :=
  match r.answer with
  | .ok _ => r
  | .error _ => { r with answer := .ok .nothing, events := r.events ++ [.taskFailed task uri] }

/-- Report an event before what a reaction reports. -/
def Reaction.after (r : Reaction σ) (event : Event) : Reaction σ :=
  { r with events := event :: r.events }

/-- Check a position and go on with it. -/
def withPosition (s : State σ) (line character : Int) (next : Position → Reaction σ) : Reaction σ :=
  match Position.make line character with
  | .ok position => next position
  | .error e => s.refuse e

/-- Read the text of a document again as the editor has it. -/
def synchronize (b : Backend σ) (s : State σ) (uri : String) : Reaction σ :=
  (s.publish uri (b.changeDocument uri (s.workspaceText uri))).guarded .analysis uri

/-- Answer a request. -/
def handle (b : Backend σ) (s : State σ) : Request → Reaction σ
  | .initialized => s.report .initialized
  | .stop => s.report .stopping
  | .didOpen uri text =>
      let held := { s with workspace := s.workspace.insert uri text }
      (held.publish uri (b.openDocument uri text)).guarded .analysis uri
  | .didChange uri texts =>
      let held := match texts.getLast? with
        | some text => { s with workspace := s.workspace.insert uri text }
        | none => s
      (synchronize b held uri).after (.changed uri)
  | .didSave uri => (synchronize b s uri).after (.saved uri)
  | .didClose uri =>
      let held := { s with workspace := s.workspace.erase uri }
      held.publish uri (b.closeDocument uri)
  | .completion uri line character =>
      withPosition s line character fun p =>
        (s.query (b.completions uri p.line p.character) .completions).guarded .completion uri
  | .resolve item => s.query (b.resolve item) .resolved
  | .hover uri line character =>
      withPosition s line character fun p =>
        (s.query (b.hover uri p.line p.character) fun h => (h.map Answer.hover).getD .nothing).guarded
          .hover uri
  | .definition uri line character =>
      withPosition s line character fun p =>
        (s.query (b.definition uri p.line p.character) fun d =>
          (d.map Answer.definition).getD .nothing).guarded .definition uri
  | .signature uri line character =>
      withPosition s line character fun p =>
        (s.query (b.signature uri p.line p.character) fun h =>
          (h.map Answer.signature).getD .nothing).guarded .signature uri
  | .outline uri => (s.query (b.outline uri) .outline).guarded .outline uri
  | .formatting uri tabSize =>
      match checkBound .tabSize tabSize with
      | .ok columns => (s.query (b.format uri columns) .edits).guarded .formatting uri
      | .error e => s.refuse e

end ScriptLens.Server
