import ScriptLens.Text.Graphic

/-!
# Quoted text

How a text is shown inside a message: between quotes, on one line, with every character that is not
graphic written as an escape.
-/

namespace ScriptLens.Text

/-- The lower-case hexadecimal digit of a number below sixteen. -/
def hexDigit (n : Nat) : Char :=
  if n < 10 then Char.ofNat (48 + n) else Char.ofNat (87 + n)

/-- The last `width` hexadecimal digits of a number, most significant first. -/
def hexDigits : Nat → Nat → List Char
  | 0, _ => []
  | width + 1, n => hexDigits width (n / 16) ++ [hexDigit (n % 16)]

/-- The escape of a character that is not graphic: the shortest of the three widths that holds its
code point. -/
def hexEscape (c : Char) : List Char :=
  if c.toNat < 0x100 then '\\' :: 'x' :: hexDigits 2 c.toNat
  else if c.toNat < 0x10000 then '\\' :: 'u' :: hexDigits 4 c.toNat
  else '\\' :: 'U' :: hexDigits 8 c.toNat

/-- The single quote mark. -/
def apostrophe : Char := '\x27'

/-- The double quote mark. -/
def doubleQuote : Char := '\x22'

/-- The quote mark around a text.  It is the single quote, unless only the double quote can be used
without an escape. -/
def quoteFor (text : List Char) : Char :=
  if text.contains apostrophe && !text.contains doubleQuote then doubleQuote else apostrophe

/-- One character of a text quoted with `quote`. -/
def quotedChar (quote c : Char) : List Char :=
  if c = quote || c = '\\' then ['\\', c]
  else if c = '\n' then ['\\', 'n']
  else if c = '\r' then ['\\', 'r']
  else if c = '\t' then ['\\', 't']
  else if isGraphic c then [c]
  else hexEscape c

/-- A text between quotes. -/
def quoted (text : String) : String :=
  let quote := quoteFor text.toList
  String.ofList ([quote] ++ text.toList.flatMap (quotedChar quote) ++ [quote])

end ScriptLens.Text
