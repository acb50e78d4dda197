import ScriptLens.Text.Blank
import ScriptLens.Text.Digit
import ScriptLens.Text.Letter
import ScriptLens.Text.Substitute

/-!
# Spacing and braces

The rules that give a text its canonical spacing.  They work on characters alone, so they apply to any
text, whether it can be read as a program or not.
-/

namespace ScriptLens.Layout

open Text

/-- The number of blanks at the front of a text. -/
def leadingBlanks (cs : List Char) : Nat :=
  (cs.takeWhile isBlank).length

/-! ### Braces -/

/-- An opening brace with something in it ends its line. -/
def afterOpenBrace : Rule := fun _ cs =>
  match cs with
  | '{' :: rest =>
      match trimLeft rest with
      | [] => none
      | c :: _ => if c = '}' then none else some ⟨leadingBlanks rest + 1, ['{', '\n']⟩
  | _ => none

/-- A closing brace with something before it starts a line. -/
def beforeCloseBrace : Rule := fun _ cs =>
  match cs with
  | [] => none
  | c :: rest =>
      if isBlank c || c = '{' then none
      else if (trimLeft rest).head? = some '}' then some ⟨leadingBlanks rest + 1, [c, '\n']⟩
      else none

/-- Break the lines of a text at its braces. -/
def breakAtBraces (text : List Char) : List Char :=
  substitute beforeCloseBrace (substitute afterOpenBrace text)

/-! ### Blanks on a line -/

/-- The first of some marks that a text starts with. -/
def leadingMark? (marks : List (List Char)) (cs : List Char) : Option (List Char) :=
  marks.find? (·.isPrefixOf cs)

/-- Replace a mark and all blanks around it. -/
def respaced (marks : List (List Char)) (render : List Char → List Char) : Rule := fun _ cs =>
  let rest := trimLeft cs
  (leadingMark? marks rest).map fun mark =>
    ⟨leadingBlanks cs + mark.length + leadingBlanks (rest.drop mark.length), render mark⟩

/-- Comparisons and assignments, longer marks before their beginnings. -/
def comparisonMarks : List (List Char) :=
  [['=', '='], ['!', '='], ['<', '='], ['>', '='], ['=']]

/-- One blank on each side of a comparison or assignment. -/
def aroundComparison : Rule :=
  respaced comparisonMarks fun mark => [' '] ++ mark ++ [' ']

/-- No blank before a comma and one behind it. -/
def afterComma : Rule :=
  respaced [[',']] fun mark => mark ++ [' ']

/-- No blank before a colon and one behind it. -/
def afterColon : Rule :=
  respaced [[':']] fun mark => mark ++ [' ']

/-- One blank between a closing parenthesis and an opening brace. -/
def beforeBlock : Rule := fun _ cs =>
  match cs with
  | ')' :: rest =>
      if (trimLeft rest).head? = some '{' then some ⟨leadingBlanks rest + 2, [')', ' ', '{']⟩
      else none
  | _ => none

/-- A character of a word. -/
def isWordChar (c : Char) : Bool :=
  isLetter c || isNumeric c || c = '_'

/-- The words that stand apart from the parenthesis behind them. -/
def headWords : List (List Char) :=
  [['i', 'f'], ['w', 'h', 'i', 'l', 'e'], ['f', 'n'], ['i', 'm', 'p', 'o', 'r', 't']]

/-- The width of an opening parenthesis with at most one blank before it. -/
def parenthesisWidth? : List Char → Option Nat
  | '(' :: _ => some 1
  | c :: '(' :: _ => if isBlank c then some 2 else none
  | _ => none

/-- One blank between certain words and an opening parenthesis. -/
def afterHeadWord : Rule := fun before cs =>
  if before.any isWordChar then none
  else do
    let word ← leadingMark? headWords cs
    let width ← parenthesisWidth? (cs.drop word.length)
    some ⟨word.length + width, word ++ [' ', '(']⟩

/-- The rules for blanks on a line, in the order in which they apply. -/
def spacingRules : List Rule :=
  [aroundComparison, afterComma, afterColon, beforeBlock, afterHeadWord]

/-- A line with canonical spacing. -/
def normalize (line : List Char) : List Char :=
  trim (spacingRules.foldl (fun text rule => substitute rule text) line)

end ScriptLens.Layout
