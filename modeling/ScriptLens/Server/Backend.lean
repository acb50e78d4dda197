import ScriptLens.Session.Basic

/-!
# Backends

What a server asks of the component that holds the documents.  A server works with any backend, and every
operation of a backend may fail.
-/

namespace ScriptLens.Server

/-- An operation on a state that may fail. -/
abbrev Operation (σ α : Type) := σ → Outcome σ α

/-- The operations of a component that holds documents. -/
structure Backend (σ : Type) where
  openDocument : (uri text : String) → Operation σ (List Diagnostic)
  changeDocument : (uri text : String) → Operation σ (List Diagnostic)
  closeDocument : (uri : String) → Operation σ (List Diagnostic)
  completions : (uri : String) → (line character : Int) → Operation σ (List CompletionItem)
  resolve : CompletionItem → Operation σ CompletionItem
  hover : (uri : String) → (line character : Int) → Operation σ (Option Hover)
  definition : (uri : String) → (line character : Int) → Operation σ (Option Target)
  signature : (uri : String) → (line character : Int) → Operation σ (Option SignatureHelp)
  outline : (uri : String) → Operation σ (List OutlineEntry)
  format : (uri : String) → (tabSize : Int) → Operation σ (List TextEdit)

/-- An operation that only looks at the state. -/
def look {σ α : Type} (query : σ → Except Failure α) : Operation σ α :=
  fun state => ⟨query state, state, []⟩

/-- A query about a document that starts with a walk over its program. -/
def lookAt {α : Type} (host : Host) (uri : String) (query : Session → Except Failure α) :
    Operation Session α :=
  look fun s => do
    s.walk uri host
    query s

/-- A session as a backend, on a host that may have limits. -/
def Backend.ofSession (read : Reader) (host : Host := {}) : Backend Session where
  openDocument uri text := fun s => s.openDocument read uri text
  changeDocument uri text := fun s => s.changeDocument read uri text
  closeDocument uri := fun s => s.closeDocument uri
  completions uri line character := lookAt host uri fun s => .ok (s.completions uri line character)
  resolve item := look fun s => .ok (s.resolve item)
  hover uri line character := lookAt host uri fun s => s.hover uri line character
  definition uri line character := lookAt host uri fun s => s.definition uri line character
  signature uri line character := lookAt host uri fun s => .ok (s.signature uri line character)
  outline uri := lookAt host uri fun s => s.outline uri
  format uri tabSize := look fun s => s.format uri tabSize host

end ScriptLens.Server
