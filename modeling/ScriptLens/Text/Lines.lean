/-!
# Lines of a text

Two ways to cut a text into lines.  `lines` cuts at the line feed only, as positions count lines.
`visualLines` cuts wherever a display may start a new line, as the quotation of a line in a message
does.
-/

namespace ScriptLens.Text

/-- The pieces between separators.  There is one more piece than there are separators. -/
def pieces (separator : Char) : List Char → List (List Char)
  | [] => [[]]
  | c :: cs =>
      if c = separator then [] :: pieces separator cs
      else
        match pieces separator cs with
        | [] => [[c]]
        | piece :: rest => (c :: piece) :: rest

/-- The lines of a text: the pieces between line feeds. -/
def lines (text : List Char) : List (List Char) :=
  pieces '\n' text

/-- The lines with a line feed between each two. -/
def unlines (ls : List (List Char)) : List Char :=
  List.intercalate ['\n'] ls

@[simp] theorem unlines_nil : unlines [] = [] := rfl

@[simp] theorem unlines_singleton (line : List Char) : unlines [line] = line :=
  List.append_nil line

@[simp] theorem unlines_cons_cons (line below : List Char) (more : List (List Char)) :
    unlines (line :: below :: more) = line ++ '\n' :: unlines (below :: more) := by
  simp [unlines, List.intercalate]

theorem pieces_ne_nil (separator : Char) (text : List Char) : pieces separator text ≠ [] := by
  cases text with
  | nil => simp [pieces]
  | cons c cs =>
      rw [pieces]
      split
      · simp
      · split <;> simp

/-- Joining the lines of a text gives the text back. -/
theorem unlines_lines (text : List Char) : unlines (lines text) = text := by
  induction text with
  | nil => rfl
  | cons c cs ih =>
      have ih : unlines (pieces '\n' cs) = cs := ih
      rw [lines, pieces]
      split
      · rename_i h
        subst h
        cases hp : pieces '\n' cs with
        | nil => exact absurd hp (pieces_ne_nil '\n' cs)
        | cons line rest =>
            rw [hp] at ih
            rw [← ih]
            rfl
      · cases hp : pieces '\n' cs with
        | nil => exact absurd hp (pieces_ne_nil '\n' cs)
        | cons line rest =>
            rw [hp] at ih
            rw [← ih]
            cases rest <;> rfl

/-- A character at which a display starts a new line. -/
def isLineBreak (c : Char) : Bool :=
  ['\n', '\r', '\x0b', '\x0c', '\x1c', '\x1d', '\x1e', '\u0085', '\u2028', '\u2029'].contains c

/-- The pieces that line breaks end.  A carriage return and the line feed after it are one break,
and nothing follows a final break. -/
def visualLines : List Char → List (List Char)
  | [] => []
  | '\r' :: '\n' :: cs => [] :: visualLines cs
  | c :: cs =>
      if isLineBreak c then [] :: visualLines cs
      else
        match visualLines cs with
        | [] => [[c]]
        | line :: rest => (c :: line) :: rest

end ScriptLens.Text
