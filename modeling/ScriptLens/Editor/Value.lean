import ScriptLens.Editor.Position

/-!
# Answers to an editor

The values that an editor is sent.
-/

namespace ScriptLens

/-- How the text of a completion is inserted. -/
inductive InsertFormat where
  | plain
  | snippet
deriving DecidableEq, Repr

/-- The protocol number of an insert format. -/
def InsertFormat.code : InsertFormat → Nat
  | .plain => 1
  | .snippet => 2

/-- A completion; `kind` is the protocol number of what it completes. -/
structure CompletionItem where
  label : String
  kind : Option Nat := none
  detail : Option String := none
  documentation : Option String := none
  insertText : Option String := none
  insertFormat : Option InsertFormat := none
deriving DecidableEq, Repr, Inhabited

/-- What is shown for the word under the cursor. -/
structure Hover where
  value : String
  range : Range
deriving DecidableEq, Repr

/-- A part of some document. -/
structure Target where
  uri : String
  range : Range
deriving DecidableEq, Repr

/-- The signature of the function whose arguments are being written. -/
structure SignatureHelp where
  label : String
  documentation : Option String
  parameters : List String
  activeParameter : Nat
deriving DecidableEq, Repr

/-- An entry of the outline of a document; `kind` is the protocol number of what it names. -/
structure OutlineEntry where
  name : String
  kind : Nat
  range : Range
  detail : String
deriving DecidableEq, Repr

/-- A change of a document. -/
structure TextEdit where
  range : Range
  newText : String
deriving DecidableEq, Repr

/-- A complaint about a part of a document. -/
structure Diagnostic where
  range : Range
  message : String
deriving DecidableEq, Repr

/-- Every diagnostic is an error. -/
def Diagnostic.severity : Nat := 1

/-- Who complains. -/
def Diagnostic.source : String := "cursorscript"

end ScriptLens
