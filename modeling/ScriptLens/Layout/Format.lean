import ScriptLens.Host
import ScriptLens.Layout.Spacing
import ScriptLens.Text.Lines

/-!
# Formatting

A formatted text has canonical spacing on each line, every line indented by the blocks around it, a
semicolon behind each statement, and no two blank lines in a row.
-/

namespace ScriptLens.Layout

open Text

/-- The columns of a level of indentation when nothing sensible is asked for. -/
def defaultTabSize : Nat := 4

/-- The columns of a level of indentation. -/
def tabSize (requested : Int) : Nat :=
  if requested ≤ 0 then defaultTabSize else requested.toNat

/-- A line that closes a block. -/
def startsWithCloser (line : List Char) : Bool :=
  line.head? = some '}' || line.head? = some ']'

/-- A line that opens a block. -/
def endsWithOpener (line : List Char) : Bool :=
  line.getLast? = some '{' || line.getLast? = some '['

/-- The beginnings of lines that never take a semicolon. -/
def openHeads : List (List Char) :=
  [['i', 'f'], ['w', 'h', 'i', 'l', 'e'], ['e', 'l', 's', 'e'], ['f', 'n', ' '], ['/', '/']]

/-- Whether a line is a statement without its semicolon.  A line with a colon is an entry of an object,
unless it is an import. -/
def lacksSemicolon (line : List Char) : Bool :=
  !(line.getLast? = some ';' || line.getLast? = some ',' || endsWithOpener line
    || startsWithCloser line || line.getLast? = some '}'
    || openHeads.any (·.isPrefixOf line)
    || (line.contains ':' && !"import".toList.isPrefixOf line))

/-- The final text of a line that is not blank. -/
def finishLine (line : List Char) : List Char :=
  let spaced := normalize line
  if lacksSemicolon spaced then normalize (spaced ++ [';']) else spaced

/-- Lay out lines, given the level of indentation that was reached and whether the line before, if there
is one, has text.  A blank line is kept only behind a line with text. -/
def arrange (tab : Nat) : (level : Nat) → (afterText : Bool) → List (List Char) → List (List Char)
  | _, _, [] => []
  | level, afterText, raw :: rest =>
      let line := trim raw
      if line.isEmpty then
        if afterText then [] :: arrange tab level false rest else arrange tab level false rest
      else
        let here := if startsWithCloser line then level - 1 else level
        let content := finishLine line
        let below := if endsWithOpener content then here + 1 else here
        (List.replicate (here * tab) ' ' ++ content) :: arrange tab below true rest

/-- Lay out lines as `arrange` does, if the host can hold what is to stand in front of each. -/
def arrangeWithin (host : Host) (tab : Nat) :
    (level : Nat) → (afterText : Bool) → List (List Char) → Except Failure (List (List Char))
  | _, _, [] => .ok []
  | level, afterText, raw :: rest =>
      let line := trim raw
      if line.isEmpty then
        if afterText then do
          return [] :: (← arrangeWithin host tab level false rest)
        else arrangeWithin host tab level false rest
      else do
        let here := if startsWithCloser line then level - 1 else level
        let content := finishLine line
        let below := if endsWithOpener content then here + 1 else here
        let indented := (← host.blanks (here * tab)) ++ content
        return indented :: (← arrangeWithin host tab below true rest)

/-- Format a text. -/
def formatChars (tab : Nat) (source : List Char) : List Char :=
  unlines (arrange tab 0 false (lines (breakAtBraces source)))

/-- Format a text with the requested columns for each level of indentation. -/
def format (source : String) (requested : Int) : String :=
  String.ofList (formatChars (tabSize requested) source.toList)

/-- Format a text, if the host can hold the result. -/
def formatWithin (host : Host) (source : String) (requested : Int) : Except Failure String := do
  let arranged ← arrangeWithin host (tabSize requested) 0 false (lines (breakAtBraces source.toList))
  return String.ofList (← host.hold (unlines arranged))

end ScriptLens.Layout
