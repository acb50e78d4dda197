import ScriptLens.Editor.Position
import ScriptLens.Query.Word
import ScriptLens.Symbol.Builtin

/-!
# Completion

Behind a name and a dot the members of what the name means are offered, and anywhere else all built-in
symbols and the symbols that the document declares on earlier lines, each name once.
-/

namespace ScriptLens.Query

/-- What completion has to know about a cursor. -/
structure Cursor where
  offset : Nat
  /-- The line of the cursor, counted from one. -/
  line : Nat
  /-- The text from the start of the line to the cursor. -/
  lead : List Char
  /-- The name whose members are asked for. -/
  object? : Option (List Char)
deriving DecidableEq, Repr

namespace Cursor

/-- The cursor at an offset, moved into the text. -/
def ofOffset (text : List Char) (offset : Int) : Cursor :=
  let here := Position.clamp text offset
  let before := text.take here
  { offset := here
    line := before.count '\n' + 1
    lead := (before.reverse.takeWhile (· ≠ '\n')).reverse
    object? := objectBefore? before.reverse }

/-- A line comment starts before the cursor. -/
def inComment (c : Cursor) : Bool :=
  hasComment c.lead

end Cursor

/-- Put a symbol into a list of symbols: in place of the one with its name, or else at the end. -/
def place (s : Symbol) : List Symbol → List Symbol
  | [] => [s]
  | t :: rest => if t.name = s.name then s :: rest else t :: place s rest

/-- The symbols that can be used on a line: the built-in ones, then those declared on earlier lines.  A
later declaration takes the place of an earlier one with its name. -/
def visible (line : Int) (locals : List Symbol) : List Symbol :=
  (locals.filter fun s => decide (s.line < line)).foldl (fun table s => place s table)
    Builtin.symbols

/-- The completions for a line. -/
def scopeItems (line : Int) (locals : List Symbol) : List CompletionItem :=
  (visible line locals).map Symbol.toCompletion

/-- The completions for the members of a name, if it means something that has members. -/
def memberItems? (object : String) (locals : List Symbol) : Option (List CompletionItem) :=
  match (Symbol.resolve? locals object).map Symbol.members with
  | none => none
  | some [] => none
  | some members => some (members.map Symbol.toCompletion)

/-- The completions at a cursor. -/
def completionItems (c : Cursor) (locals : List Symbol) : List CompletionItem :=
  if c.inComment then []
  else
    ((c.object?.map String.ofList).bind fun object => memberItems? object locals).getD
      (scopeItems c.line locals)

end ScriptLens.Query
