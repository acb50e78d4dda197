import ScriptLens.Editor.Value
import ScriptLens.Text.Blank
import ScriptLens.Text.Digit

/-!
# Diagnostics

A document that cannot be read has one diagnostic, which underlines the token that its failure is about.
-/

namespace ScriptLens.Diagnosis

/-- The number that starts a text after a colon, with the rest behind its digits. -/
def colonNumber? : List Char → Option (List Char × List Char)
  | ':' :: cs =>
      let digits := cs.takeWhile Text.isDecimal
      if digits.isEmpty then none else some (digits, cs.drop digits.length)
  | _ => none

/-- The first two numbers in a text that each follow a colon, one right behind the other. -/
def placeIn? : List Char → Option (List Char × List Char)
  | [] => none
  | c :: cs =>
      let here := do
        let (line, rest) ← colonNumber? (c :: cs)
        let (column, _) ← colonNumber? rest
        some (line, column)
      here.or (placeIn? cs)

/-- The number that decimal digits denote, unless there are too many of them. -/
def integerOf (digits : List Char) : Except Failure Int :=
  if maxIntegerDigits < digits.length then .error (.integerDigits digits.length)
  else .ok (Text.ofDigits ((Text.decimalValues? digits).getD []))

/-- The location that a failure carries. -/
def locationOf? : Failure → Option Location
  | .fault f => f.location
  | _ => none

/-- The line that a failure quotes. -/
def quotedLine? : Failure → Option String
  | .fault f => f.sourceLine.filter (!·.isEmpty)
  | _ => none

/-- What a failure says, without the place. -/
def textOf : Failure → String
  | .fault f => f.text
  | other => other.message

/-- The line and column of a failure, counted from one: those of its location, or else those that its
message names, or else zero. -/
def placeOf (e : Failure) : Except Failure (Int × Int) :=
  match locationOf? e with
  | some loc => .ok (loc.line, loc.column)
  | none =>
      match placeIn? e.message.toList with
      | some (line, column) => do return (← integerOf line, ← integerOf column)
      | none => .ok (0, 0)

/-- A character that ends the token before it. -/
def endsToken (c : Char) : Bool :=
  Text.isBlank c || "()[]\x7b\x7d,:;".toList.contains c

/-- The text behind a character of a line; negative characters count from the end of the line. -/
def fromCharacter (line : List Char) (character : Int) : List Char :=
  line.drop (if character < 0 then (line.length + character).toNat else character.toNat)

/-- The end of the token that starts at a character.  It is at least one character wide. -/
def underlineEnd (line : List Char) (character : Int) : Int :=
  let width := ((fromCharacter line character).takeWhile (!endsToken ·)).length
  character + (max 1 width : Nat)

/-- The diagnostic of a failure to read a text. -/
def ofFailure (source : String) (e : Failure) : Except Failure Diagnostic := do
  let (line, column) ← placeOf e
  let startLine := max 0 (line - 1)
  let startCharacter := max 0 (column - 1)
  let documentLine := (Text.lines source.toList)[startLine.toNat]?.getD []
  let quoted := ((quotedLine? e).map String.toList).getD documentLine
  let range ← Range.onLine startLine startCharacter (underlineEnd quoted startCharacter)
  return ⟨range, textOf e⟩

/-- The diagnostics of a text, given what reading it gave. -/
def ofResult {α : Type} (source : String) : Except Failure α → Except Failure (List Diagnostic)
  | .ok _ => .ok []
  | .error e => do return [← ofFailure source e]

end ScriptLens.Diagnosis
