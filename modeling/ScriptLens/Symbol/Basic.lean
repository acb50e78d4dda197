import ScriptLens.Editor.Value

/-!
# Symbols

A symbol is a name that a program can use, declared in a document or built into the language.
-/

namespace ScriptLens

/-- What a symbol names. -/
inductive SymbolKind where
  | var
  | constant
  | function
  | parameter
  | package
  | property
deriving DecidableEq, Repr

namespace SymbolKind

/-- The name of a kind. -/
def label : SymbolKind → String
  | .var => "VARIABLE"
  | .constant => "CONSTANT"
  | .function => "FUNCTION"
  | .parameter => "PARAMETER"
  | .package => "MODULE"
  | .property => "PROPERTY"

/-- The protocol number of a kind in a completion. -/
def completionCode : SymbolKind → Nat
  | .var => 6
  | .constant => 21
  | .function => 3
  | .parameter => 6
  | .package => 9
  | .property => 10

/-- The protocol number of a kind in an outline. -/
def outlineCode : SymbolKind → Nat
  | .function => 12
  | .constant => 14
  | .package => 2
  | _ => 13

end SymbolKind

/-- A name with what is known about it.  Lines and columns count from one; what is built in has zero. -/
structure Symbol where
  name : String
  kind : SymbolKind
  detail : String
  documentation : Option String := none
  /-- A snippet that is inserted in place of the name. -/
  insertText : Option String := none
  line : Int := 0
  column : Int := 0
  members : List Symbol := []

namespace Symbol

/-- A symbol that was declared somewhere. -/
def isDeclared (s : Symbol) : Bool :=
  decide (0 < s.line)

/-- The symbol as a completion. -/
def toCompletion (s : Symbol) : CompletionItem :=
  { label := s.name
    kind := some s.kind.completionCode
    detail := some s.detail
    documentation := s.documentation
    insertText := s.insertText
    insertFormat := some (if s.insertText.any (!·.isEmpty) then .snippet else .plain) }

/-- The name of the symbol where it is declared. -/
def range (s : Symbol) : Except Failure Range :=
  let first := max 0 (s.column - 1)
  Range.onLine (max 0 (s.line - 1)) first (first + s.name.length)

/-- The symbol as an entry of an outline. -/
def toOutline (s : Symbol) : Except Failure OutlineEntry := do
  return { name := s.name, kind := s.kind.outlineCode, range := ← s.range, detail := s.detail }

/-- The first symbol with a given name. -/
def find? (symbols : List Symbol) (name : String) : Option Symbol :=
  List.find? (fun s => s.name = name) symbols

/-- The first member with a given name. -/
def member? (s : Symbol) (name : String) : Option Symbol :=
  find? s.members name

end Symbol

end ScriptLens
