import ScriptLens.Diagnosis
import ScriptLens.Layout.Edit
import ScriptLens.Query.Snapshot
import ScriptLens.Session.Event
import ScriptLens.Symbol.Walk
import ScriptLens.Syntax.Read
import Std.Data.HashMap

/-!
# Sessions

A session holds the text of every open document and the last program that could be read from it.  A text
that cannot be read leaves the program of the document as it was, and gives one diagnostic.
-/

namespace ScriptLens

/-- How a text is read; the name of the document stands for the file. -/
abbrev Reader := (text uri : String) → Except Failure Program

/-- The reader of the language. -/
def Reader.standard : Reader :=
  fun text uri => Syntax.read text (some uri)

/-- What an operation gives, leaves behind and reports.  An operation that fails may still have changed the
state. -/
structure Outcome (σ α : Type) where
  result : Except Failure α
  state : σ
  events : List Event := []

/-- The last program of each document. -/
abbrev ProgramStore := Std.HashMap String Program

/-- Forget the program of a document. -/
def ProgramStore.evict (store : ProgramStore) (uri : String) : Outcome ProgramStore Unit :=
  { result := .ok ()
    state := store.erase uri
    events := if store.contains uri then [.evicted uri] else [] }

/-- The open documents. -/
structure Session where
  texts : Std.HashMap String String := ∅
  programs : ProgramStore := ∅

namespace Session

/-- The text of an open document. -/
def text? (s : Session) (uri : String) : Option String :=
  s.texts[uri]?

/-- The last program of a document. -/
def program? (s : Session) (uri : String) : Option Program :=
  s.programs[uri]?

/-- Give a document a new text, and its program if the text can be read. -/
def changeDocument (read : Reader) (s : Session) (uri text : String) : Outcome Session (List Diagnostic) :=
  let stored := { s with texts := s.texts.insert uri text }
  match read text uri with
  | .ok program =>
      { result := .ok []
        state := { stored with programs := s.programs.insert uri program }
        events := [.readDone uri program.body.length] }
  | .error e =>
      { result := Diagnosis.ofFailure text e |>.map ([·])
        state := stored
        events := [.readFailed uri e.message] }

/-- Open a document. -/
def openDocument (read : Reader) (s : Session) (uri text : String) : Outcome Session (List Diagnostic) :=
  let changed := s.changeDocument read uri text
  { changed with events := .opened uri :: changed.events }

/-- Close a document, which leaves it without diagnostics. -/
def closeDocument (s : Session) (uri : String) : Outcome Session (List Diagnostic) :=
  let evicted := ProgramStore.evict s.programs uri
  { result := .ok []
    state := { texts := s.texts.erase uri, programs := evicted.state }
    events := .closed uri :: evicted.events }

/-- An open document as queries see it. -/
def snapshot? (s : Session) (uri : String) : Option Query.Snapshot :=
  (s.text? uri).map fun text => ⟨text, uri, s.program? uri⟩

/-- The completions at a position of a document. -/
def completions (s : Session) (uri : String) (line character : Int) : List CompletionItem :=
  ((s.snapshot? uri).map (·.completions line character)).getD []

/-- A completion with all its fields; it has them from the start. -/
def resolve (_ : Session) (item : CompletionItem) : CompletionItem :=
  item

/-- What is shown for the word at a position of a document. -/
def hover (s : Session) (uri : String) (line character : Int) : Except Failure (Option Hover) :=
  match s.snapshot? uri with
  | none => .ok none
  | some snapshot => snapshot.hover line character

/-- Where the word at a position of a document is declared. -/
def definition (s : Session) (uri : String) (line character : Int) :
    Except Failure (Option Target) :=
  match s.snapshot? uri with
  | none => .ok none
  | some snapshot => snapshot.definition line character

/-- The signature of the call around a position of a document. -/
def signature (s : Session) (uri : String) (line character : Int) : Option SignatureHelp :=
  (s.snapshot? uri).bind (·.signature line character)

/-- The outline of a document. -/
def outline (s : Session) (uri : String) : Except Failure (List OutlineEntry) :=
  match s.snapshot? uri with
  | none => .ok []
  | some snapshot => snapshot.outline

/-- The edits that format a document. -/
def format (s : Session) (uri : String) (tabSize : Int) (host : Host := {}) :
    Except Failure (List TextEdit) :=
  match s.text? uri with
  | none => .ok []
  | some text => Layout.edits text tabSize host

/-- The walk over the program of an open document that every query but formatting starts with. -/
def walk (s : Session) (uri : String) (host : Host) : Except Failure Unit :=
  match (s.snapshot? uri).bind (·.program) with
  | none => .ok ()
  | some program => discard (program.collect host)

end Session

end ScriptLens
