import ScriptLens.Query.Completion
import ScriptLens.Symbol.Collect

/-!
# Queries about a document

A snapshot is the present text of a document with the last program that could be read from it, which may
belong to an earlier text.  Without a program only completion answers.
-/

namespace ScriptLens.Query

/-- A document at the time of a query. -/
structure Snapshot where
  source : String
  uri : String
  program : Option Program := none

namespace Snapshot

/-- The text of the document. -/
def text (s : Snapshot) : List Char :=
  s.source.toList

/-- The symbols that the document declares. -/
def symbols (s : Snapshot) : List Symbol :=
  (s.program.map Program.symbols).getD []

/-- What a name means in the document. -/
def resolve? (s : Snapshot) (name : List Char) : Option Symbol :=
  Symbol.resolve? s.symbols (String.ofList name)

/-- The completions at a position. -/
def completions (s : Snapshot) (line character : Int) : List CompletionItem :=
  completionItems (Cursor.ofOffset s.text (Position.offsetOf s.text line character)) s.symbols

/-- The word at a position that means something, with its meaning. -/
def meaningAt? (s : Snapshot) (line character : Int) : Option (Word × Symbol) :=
  if s.program.isNone then none
  else do
    let word ← wordAt? s.text (Position.offsetOf s.text line character)
    let symbol ← s.resolve? word.text
    some (word, symbol)

/-- What is shown for a word: the word, the detail of its symbol and the documentation that is not
empty, with a blank line between each two. -/
def hoverText (word : List Char) (symbol : Symbol) : String :=
  "**" ++ String.ofList word ++ "**\n\n" ++ symbol.detail
    ++ (match symbol.documentation.filter (!·.isEmpty) with
      | some doc => "\n\n" ++ doc
      | none => "")

/-- What is shown for the word at a position. -/
def hover (s : Snapshot) (line character : Int) : Except Failure (Option Hover) :=
  match s.meaningAt? line character with
  | none => .ok none
  | some (word, symbol) => do
      let first ← Position.ofOffset s.text word.first
      let last ← Position.ofOffset s.text word.last
      return some ⟨hoverText word.text symbol, ⟨first, last⟩⟩

/-- Where the word at a position is declared.  What is built in is declared nowhere. -/
def definition (s : Snapshot) (line character : Int) : Except Failure (Option Target) :=
  match s.meaningAt? line character with
  | none => .ok none
  | some (word, symbol) =>
      if symbol.isDeclared then do
        let first := max 0 (symbol.column - 1)
        let range ← Range.onLine (symbol.line - 1) first (first + word.text.length)
        return some ⟨s.uri, range⟩
      else .ok none

/-- What a callee means. -/
def callable? (s : Snapshot) : Callee → Option Symbol
  | .name word => s.resolve? word
  | .member owner word => (s.resolve? owner).bind (·.member? (String.ofList word))

/-- The signature of the call around a position.  It is the call of the nearest opening parenthesis, even
if that parenthesis was closed again. -/
def signature (s : Snapshot) (line character : Int) : Option SignatureHelp :=
  if s.program.isNone then none
  else do
    let offset := Position.offsetOf s.text line character
    let (before, commas) ← openCall? (s.text.take offset).reverse
    let callee ← calleeBefore? before
    let symbol ← s.callable? callee
    if symbol.detail.toList.contains '(' then
      some
        { label := symbol.detail
          documentation := symbol.documentation
          parameters := listedNames ((innerList? symbol.detail.toList).getD [])
          activeParameter := commas }
    else none

/-- The outline of the document: the symbols that were declared somewhere. -/
def outline (s : Snapshot) : Except Failure (List OutlineEntry) :=
  (s.symbols.filter Symbol.isDeclared).mapM Symbol.toOutline

end Snapshot

end ScriptLens.Query
