import ScriptLens.Location
import ScriptLens.Text.Quoted

/-!
# Failures

A `Fault` is a complaint about a source text, with the place and the line it is about when they are
known.  A `Failure` is any reason why an operation has no result.
-/

namespace ScriptLens

/-- The part of the language a fault is about. -/
inductive Stage where
  | lexical
  | grammatical
  | general
deriving DecidableEq, Repr, Inhabited

/-- A complaint about a source text. -/
structure Fault where
  stage : Stage
  text : String
  location : Option Location := none
  sourceLine : Option String := none
deriving DecidableEq, Repr, Inhabited

namespace Fault

/-- The columns by which a quoted source line is indented. -/
def quoteIndent : Nat := 4

/-- The quoted source line and, on the next line, a mark under the column of the fault. -/
def excerpt (loc : Location) (line : String) : String :=
  let pad := (quoteIndent + loc.column - 1).toNat
  "\n" ++ String.ofList (List.replicate quoteIndent ' ') ++ line
    ++ "\n" ++ String.ofList (List.replicate pad ' ') ++ "^"

/-- The whole message: the place in brackets, the text, and the excerpt.  A quoted line without a
place shows only as a blank after the text. -/
def render (f : Fault) : String :=
  match f.location, f.sourceLine.filter (!·.isEmpty) with
  | some loc, none => "[" ++ loc.render ++ "] " ++ f.text
  | some loc, some line => "[" ++ loc.render ++ "] " ++ f.text ++ excerpt loc line
  | none, none => f.text
  | none, some _ => f.text ++ " "

end Fault

/-- A field of an editor protocol value that has to be within bounds. -/
inductive BoundedField where
  | line
  | character
  | tabSize
deriving DecidableEq, Repr

/-- The full name of a bounded field. -/
def BoundedField.label : BoundedField → String
  | .line => "Position.line"
  | .character => "Position.character"
  | .tabSize => "FormattingOptions.tab_size"

/-- The greatest value of a bounded field. -/
def maxFieldValue : Int := 2147483647

/-- The greatest number of digits of an integer that is read from a text. -/
def maxIntegerDigits : Nat := 4300

/-- The greatest length that a text can be asked to have. -/
def maxIndex : Nat := 9223372036854775807

/-- A reason why an operation has no result. -/
inductive Failure where
  /-- The source text is at fault. -/
  | fault (f : Fault)
  /-- A numeral has a digit that is not decimal. -/
  | numeral (text : String)
  /-- A text has too many digits to be read as an integer. -/
  | integerDigits (count : Nat)
  /-- A field of an editor protocol value is out of bounds. -/
  | bound (field : BoundedField) (value : Int)
  /-- A text of this length would be too long for the host. -/
  | tooLong (length : Nat)
  /-- Calls inside each other would be too many for the host. -/
  | tooDeep
  /-- Another component failed with this message. -/
  | component (message : String)
deriving DecidableEq, Repr, Inhabited

/-- The message of a failure. -/
def Failure.message : Failure → String
  | .fault f => f.render
  | .numeral text => "could not convert string to float: " ++ Text.quoted text
  | .integerDigits count =>
      "Exceeds the limit (" ++ toString maxIntegerDigits
        ++ " digits) for integer string conversion: value has " ++ toString count
        ++ " digits; use sys.set_int_max_str_digits() to increase the limit"
  | .bound field value =>
      field.label ++ " should be in range [0:" ++ toString maxFieldValue ++ "], but was "
        ++ toString value ++ "."
  | .tooLong length => if maxIndex < length then "cannot fit 'int' into an index-sized integer" else ""
  | .tooDeep => "maximum recursion depth exceeded"
  | .component message => message

/-- Check a field of an editor protocol value. -/
def checkBound (field : BoundedField) (value : Int) : Except Failure Nat :=
  if 0 ≤ value ∧ value ≤ maxFieldValue then .ok value.toNat else .error (.bound field value)

end ScriptLens
