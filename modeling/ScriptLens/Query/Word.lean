import ScriptLens.Text.Blank
import ScriptLens.Text.Lines

/-!
# Words at a cursor

What the characters around a cursor say, read off the text alone.  The text before the cursor is always
given in reverse, so that the character next to the cursor comes first.
-/

namespace ScriptLens.Query

/-- A character of a word that queries look up.  Names with other letters are not looked up. -/
def isWordChar (c : Char) : Bool :=
  c.isAlphanum || c = '_' || c = '$'

/-- A word in a text, between two offsets. -/
structure Word where
  text : List Char
  first : Nat
  last : Nat
deriving DecidableEq, Repr

/-- The word that a cursor touches: the word characters on both sides of it. -/
def wordAt? (text : List Char) (offset : Nat) : Option Word :=
  let left := ((text.take offset).reverse.takeWhile isWordChar).reverse
  let right := (text.drop offset).takeWhile isWordChar
  let word := left ++ right
  if word.isEmpty then none
  else some ⟨word, offset - left.length, offset + right.length⟩

/-- The word that ends at the cursor, of the reversed text before it. -/
def wordBefore? (before : List Char) : Option (List Char) :=
  let word := (before.takeWhile isWordChar).reverse
  if word.isEmpty then none else some word

/-- The name whose members are asked for: the word before a dot at the end of the text.  One line feed
may follow the dot. -/
def objectBefore? : List Char → Option (List Char)
  | '.' :: before => wordBefore? before
  | '\n' :: '.' :: before => wordBefore? before
  | _ => none

/-- What a call calls. -/
inductive Callee where
  | name (word : List Char)
  | member (owner word : List Char)
deriving DecidableEq, Repr

/-- The callee at the end of the text, of the reversed text before an opening parenthesis.  Blanks may
stand between the two, and the word before a dot is the owner. -/
def calleeBefore? (before : List Char) : Option Callee := do
  let ending := before.dropWhile Text.isBlank
  let word ← wordBefore? ending
  match ending.dropWhile isWordChar with
  | '.' :: rest =>
      match wordBefore? rest with
      | some owner => some (.member owner word)
      | none => some (.name word)
  | _ => some (.name word)

/-- The nearest opening parenthesis before the cursor: the reversed text before it and the number of
commas behind it. -/
def openCall? (before : List Char) : Option (List Char × Nat) :=
  match before.dropWhile (· ≠ '(') with
  | [] => none
  | _ :: rest => some (rest, (before.takeWhile (· ≠ '(')).count ',')

/-- A character that is no parenthesis. -/
def isPlain (c : Char) : Bool :=
  c ≠ '(' && c ≠ ')'

/-- What stands between the first two matching parentheses with no parenthesis between them. -/
def innerList? : List Char → Option (List Char)
  | [] => none
  | c :: cs =>
      if c = '(' && (cs.dropWhile isPlain).head? = some ')' then some (cs.takeWhile isPlain)
      else innerList? cs

/-- The names in a comma list. -/
def listedNames (inner : List Char) : List String :=
  if inner.isEmpty then []
  else (Text.pieces ',' inner).map fun piece => String.ofList (Text.trim piece)

/-- Whether a line comment starts in a text. -/
def hasComment : List Char → Bool
  | '/' :: '/' :: _ => true
  | _ :: cs => hasComment cs
  | [] => false

end ScriptLens.Query
