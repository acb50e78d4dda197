/-!
# Locations

Where something stands in a source text.  Lines and columns count from one, the offset from zero; all
three count characters.
-/

namespace ScriptLens

/-- A place in a source text.  Trees that were not read from a text may carry any integers. -/
structure Location where
  line : Int
  column : Int
  offset : Int := 0
  file : Option String := none
deriving DecidableEq, Repr, Inhabited

namespace Location

/-- The first character of a text. -/
def start (file : Option String) : Location :=
  { line := 1, column := 1, offset := 0, file := file }

/-- The place after a character.  Only a line feed ends a line. -/
def next (loc : Location) (c : Char) : Location :=
  if c = '\n' then { loc with line := loc.line + 1, column := 1, offset := loc.offset + 1 }
  else { loc with column := loc.column + 1, offset := loc.offset + 1 }

/-- The place after a text. -/
def after (loc : Location) (text : List Char) : Location :=
  text.foldl next loc

@[simp] theorem after_nil (loc : Location) : loc.after [] = loc := rfl

@[simp] theorem after_cons (loc : Location) (c : Char) (cs : List Char) :
    loc.after (c :: cs) = (loc.next c).after cs := rfl

theorem after_append (loc : Location) (a b : List Char) :
    loc.after (a ++ b) = (loc.after a).after b := by
  simp [after]

/-- The location as shown to the reader, with the file in front unless it has no name. -/
def render (loc : Location) : String :=
  let place := toString loc.line ++ ":" ++ toString loc.column
  match loc.file with
  | none => place
  | some file => if file.isEmpty then place else file ++ ":" ++ place

end Location

end ScriptLens
