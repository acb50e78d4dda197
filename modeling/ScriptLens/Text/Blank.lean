import ScriptLens.Text.Ranges

/-!
# White space

The characters that count as white space wherever a line is trimmed or a run of blanks is measured.
The set is wider than ASCII: it has the information separators and the Unicode spaces.
-/

namespace ScriptLens.Text

/-- White space, by code point. -/
def blankRanges : Ranges :=
  [(0x9, 0xD), (0x1C, 0x20), (0x85, 0x85), (0xA0, 0xA0), (0x1680, 0x1680), (0x2000, 0x200A),
   (0x2028, 0x2029), (0x202F, 0x202F), (0x205F, 0x205F), (0x3000, 0x3000)]

/-- A white space character. -/
def isBlank (c : Char) : Bool :=
  blankRanges.covers c.toNat

/-- Drop the white space at the front. -/
def trimLeft (cs : List Char) : List Char :=
  cs.dropWhile isBlank

/-- Drop the white space at the end. -/
def trimRight (cs : List Char) : List Char :=
  (cs.reverse.dropWhile isBlank).reverse

/-- Drop the white space at both ends. -/
def trim (cs : List Char) : List Char :=
  trimRight (trimLeft cs)

end ScriptLens.Text
