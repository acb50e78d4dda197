import ScriptLens.Symbol.Builtin
import ScriptLens.Syntax.Tree

/-!
# Symbols of a program

The names that a program declares, in the order of their declarations.  Every statement list inside a
statement is visited once; functions inside expressions are not.
-/

namespace ScriptLens

/-- Names with a comma and a blank between each two. -/
def commaList (names : List String) : String :=
  ", ".intercalate names

/-- What the shape of an initial value says about its type. -/
def Expr.typeWord? : Expr → Option String
  | .number _ _ => some "number"
  | .string _ _ => some "string"
  | .array _ _ => some "array"
  | .object _ _ => some "object"
  | .lambda parameters _ _ => some ("fn(" ++ commaList parameters ++ ")")
  | .identifier name _ =>
      if name = "true" || name = "false" then some "boolean"
      else if name = "null" then some "null"
      else none
  | .call _ _ _ => some "(result of call)"
  | _ => none

/-- The line of a location; zero without one. -/
def lineOf (loc : Option Location) : Int :=
  (loc.map Location.line).getD 0

/-- The column of a location; zero without one. -/
def columnOf (loc : Option Location) : Int :=
  (loc.map Location.column).getD 0

namespace Symbol

/-- The members of a variable: the entries of the object it starts with. -/
def membersOf (owner : String) : Option Expr → List Symbol
  | some (.object properties _) =>
      properties.map fun p =>
        { name := p.key, kind := .property, detail := "(property of " ++ owner ++ ")" }
  | _ => []

/-- The symbol of a variable or constant. -/
def ofDeclaration (constant : Bool) (name : String) (value : Option Expr) (doc : Option String)
    (loc : Option Location) : Symbol :=
  let word := if constant then "constant" else "variable"
  let hint := match value.bind Expr.typeWord? with
    | some type => word ++ ": " ++ type
    | none => word
  { name := name
    kind := if constant then .constant else .var
    detail := "(" ++ hint ++ ")"
    documentation := doc
    line := lineOf loc
    column := columnOf loc
    members := membersOf name value }

/-- The symbols of a function and its parameters, which stand where the function does. -/
def ofFunction (name : String) (parameters : List String) (doc : Option String)
    (loc : Option Location) : List Symbol :=
  { name := name
    kind := .function
    detail := "fn " ++ name ++ "(" ++ commaList parameters ++ ")"
    documentation := doc
    line := lineOf loc
    column := columnOf loc } ::
  parameters.map fun parameter =>
    { name := parameter
      kind := .parameter
      detail := "(parameter of " ++ name ++ ")"
      line := lineOf loc
      column := columnOf loc }

/-- The symbols of imported names, which stand where the import does. -/
def ofImport (names : List String) (source : String) (loc : Option Location) : List Symbol :=
  names.map fun name =>
    { name := name
      kind := .package
      detail := "(imported from \"" ++ source ++ "\")"
      line := lineOf loc
      column := columnOf loc }

end Symbol

mutual

/-- The symbols that a statement declares. -/
def Stmt.symbols : Stmt → List Symbol
  | .declare constant name value doc loc => [.ofDeclaration constant name value doc loc]
  | .function name parameters body doc loc =>
      Symbol.ofFunction name parameters doc loc ++ symbolsOf body
  | .imports names source loc => Symbol.ofImport names source loc
  | .conditional _ body none _ => symbolsOf body
  | .conditional _ body (some otherwise) _ => symbolsOf body ++ symbolsOf otherwise
  | .loop _ body _ => symbolsOf body
  | .result _ _ => []
  | .expression _ _ => []
  | .foreign body thenBranch elseBranch _ =>
      body.symbols ++ thenBranch.symbols ++ elseBranch.symbols

/-- The symbols in a part of a foreign statement. -/
def Slot.symbols : Slot → List Symbol
  | .absent => []
  | .text _ => []
  | .statements body => symbolsOf body

/-- The symbols that a list of statements declares. -/
def symbolsOf : List Stmt → List Symbol
  | [] => []
  | s :: rest => s.symbols ++ symbolsOf rest

end

/-- The symbols that a program declares. -/
def Program.symbols (p : Program) : List Symbol :=
  symbolsOf p.body

end ScriptLens
