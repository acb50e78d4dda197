import ScriptLens.Failure
import ScriptLens.Text.Blank
import ScriptLens.Text.Digit
import ScriptLens.Text.Letter
import ScriptLens.Text.Lines
import ScriptLens.Token.Basic

/-!
# Reading tokens

`scan` looks at the front of a text and says what stands there: a token, something to pass over, or a
fault, and in the first two cases how many characters it takes.  `tokensFrom` walks through the text
one character at a time, counting down the characters that belong to what the last scan found, and
scans again when the count is used up.  So the location of each token is the plain count of the
characters before it.
-/

namespace ScriptLens.Token

/-! ### Character classes -/

/-- A character that separates tokens and means nothing else. -/
def isSpace (c : Char) : Bool :=
  [' ', '\t', '\r', '\n'].contains c

/-- A character that may start a name. -/
def isNameStart (c : Char) : Bool :=
  Text.isLetter c || c = '_' || c = '$'

/-- A character that may continue a name. -/
def isNameChar (c : Char) : Bool :=
  Text.isLetter c || Text.isNumeric c || c = '_' || c = '$'

/-- A character of a numeral.  Underscores group digits and have no value. -/
def isNumeralChar (c : Char) : Bool :=
  Text.isDigit c || c = '_'

/-! ### What a scan finds -/

/-- Why a text cannot be cut into tokens. -/
inductive Cause where
  | openComment
  | openString
  | lineFeedInString
  | openEscape
  | unknownEscape (c : Char)
  | strayCharacter (c : Char)
deriving DecidableEq, Repr

/-- The message of a cause. -/
def Cause.message : Cause → String
  | .openComment => "Unterminated multi-line comment"
  | .openString => "Unterminated string literal"
  | .lineFeedInString => "Newline in string literal (use \\n for newlines)"
  | .openEscape => "Unterminated escape sequence"
  | .unknownEscape c => "Invalid escape sequence: \\" ++ c.toString
  | .strayCharacter c => "Unexpected character: " ++ Text.quoted c.toString

/-- What stands at the front of a text. -/
inductive Scan where
  /-- A token of the given width. -/
  | token (kind : Kind) (width : Nat)
  /-- White space or a comment of the given width. -/
  | gap (width : Nat)
  /-- A fault, reported after the given number of characters. -/
  | fault (cause : Cause) (before : Nat)
  /-- A numeral that has no value. -/
  | valueless (text : List Char)
deriving DecidableEq, Repr

/-! ### Comments -/

/-- The number of characters through the first end of a block comment. -/
def blockCommentWidth? : List Char → Option Nat
  | [] => none
  | '*' :: '/' :: _ => some 2
  | _ :: cs => (blockCommentWidth? cs).map (· + 1)

/-- The number of characters up to the end of the line. -/
def lineWidth (cs : List Char) : Nat :=
  (cs.takeWhile (· ≠ '\n')).length

/-- The text after the three slashes of a documentation line, if the line is one.  Blanks may stand
before the slashes. -/
def docText? (line : List Char) : Option (List Char) :=
  match line.dropWhile fun c => [' ', '\t', '\r'].contains c with
  | '/' :: '/' :: '/' :: text => some text
  | _ => none

/-- The text of a documentation line without the one space after the slashes and without white space
at the end. -/
def docLine (text : List Char) : List Char :=
  Text.trimRight
    (match text with
    | ' ' :: rest => rest
    | _ => text)

/-- Documentation lines right below each other are one token.  The width ends with the last of these
lines, before its line feed. -/
def scanDoc (cs : List Char) : Scan :=
  let block := (Text.lines cs).takeWhile fun line => (docText? line).isSome
  let text := Text.unlines ((block.filterMap docText?).map docLine)
  .token (.doc (String.ofList text)) (Text.unlines block).length

/-! ### Literals -/

/-- The character that an escape stands for. -/
def escaped? (c : Char) : Option Char :=
  if c = 'n' then some '\n'
  else if c = 't' then some '\t'
  else if c = 'r' then some '\r'
  else if c = '0' then some '\x00'
  else if c = '\\' || c = Text.apostrophe || c = Text.doubleQuote then some c
  else none

/-- The rest of a string literal after its opening quote: its characters and its width with the
closing quote, or a cause and the number of characters before the place it is reported at. -/
def stringBody (quote : Char) : List Char → Except (Cause × Nat) (List Char × Nat)
  | [] => .error (.openString, 0)
  | ['\\'] => .error (.openEscape, 1)
  | '\\' :: c :: cs =>
      match escaped? c with
      | none => .error (.unknownEscape c, 1)
      | some value =>
          match stringBody quote cs with
          | .ok (text, width) => .ok (value :: text, width + 2)
          | .error (cause, before) => .error (cause, before + 2)
  | c :: cs =>
      if c = '\n' then .error (.lineFeedInString, 0)
      else if c = quote then .ok ([], 1)
      else
        match stringBody quote cs with
        | .ok (text, width) => .ok (c :: text, width + 1)
        | .error (cause, before) => .error (cause, before + 1)

/-- A string literal, whose opening quote stands before `cs`.  A literal that the text leaves open is
reported at its opening quote, and any other fault where it stands. -/
def scanString (quote : Char) (cs : List Char) : Scan :=
  match stringBody quote cs with
  | .ok (text, width) => .token (.string (String.ofList text)) (width + 1)
  | .error (.openString, _) => .fault .openString 0
  | .error (cause, before) => .fault cause (before + 1)

/-- The fraction of a numeral: a point with a digit right after it, and the run that starts there. -/
def fraction : List Char → List Char
  | '.' :: c :: cs => if Text.isDigit c then (c :: cs).takeWhile isNumeralChar else []
  | _ => []

/-- A numeral.  Its value is the number nearest to the decimal it writes; a digit that is not decimal
leaves it without one. -/
def scanNumeral (cs : List Char) : Scan :=
  let wholeRun := cs.takeWhile isNumeralChar
  let fractionRun := fraction (cs.drop wholeRun.length)
  let whole := wholeRun.filter (· ≠ '_')
  let decimals := fractionRun.filter (· ≠ '_')
  let point := if fractionRun.isEmpty then [] else ['.']
  match Text.decimalValues? (whole ++ decimals) with
  | some digits =>
      .token (.number (.ofDecimal (Text.ofDigits digits) decimals.length))
        (wholeRun ++ point ++ fractionRun).length
  | none => .valueless (whole ++ point ++ decimals)

/-- A name or a reserved word. -/
def scanWord (cs : List Char) : Scan :=
  let run := cs.takeWhile isNameChar
  let word := String.ofList run
  match Keyword.ofSpelling? word with
  | some keyword => .token (.keyword keyword) run.length
  | none => .token (.identifier word) run.length

/-! ### Marks -/

/-- The mark of two characters. -/
def pairMark? : Char → Char → Option Mark
  | '=', '=' => some .equal
  | '!', '=' => some .notEqual
  | '<', '=' => some .lessEqual
  | '>', '=' => some .greaterEqual
  | '&', '&' => some .both
  | '|', '|' => some .either
  | _, _ => none

/-- The mark of one character. -/
def singleMark? : Char → Option Mark
  | '+' => some .plus
  | '-' => some .minus
  | '*' => some .star
  | '/' => some .slash
  | '%' => some .percent
  | '<' => some .less
  | '>' => some .greater
  | '=' => some .assign
  | '!' => some .bang
  | '(' => some .openParen
  | ')' => some .closeParen
  | '{' => some .openBrace
  | '}' => some .closeBrace
  | '[' => some .openBracket
  | ']' => some .closeBracket
  | ',' => some .comma
  | '.' => some .dot
  | ':' => some .colon
  | ';' => some .semicolon
  | _ => none

/-- A mark, two characters before one.  Nothing else is left that a token could start with. -/
def scanMark (c : Char) (cs : List Char) : Scan :=
  match cs.head?.bind (pairMark? c) with
  | some mark => .token (.mark mark) 2
  | none =>
      match singleMark? c with
      | some mark => .token (.mark mark) 1
      | none => .fault (.strayCharacter c) 0

/-! ### The whole text -/

/-- What stands at the front of the text `c :: cs`. -/
def scan (c : Char) (cs : List Char) : Scan :=
  if isSpace c then .gap 1
  else
    match c, cs with
    | '/', '/' :: '/' :: _ => scanDoc (c :: cs)
    | '/', '/' :: rest => .gap (lineWidth rest + 2)
    | '/', '*' :: rest =>
        match blockCommentWidth? rest with
        | some width => .gap (width + 2)
        | none => .fault .openComment 0
    | _, _ =>
        if c = Text.doubleQuote || c = Text.apostrophe then scanString c cs
        else if Text.isDigit c then scanNumeral (c :: cs)
        else if isNameStart c then scanWord (c :: cs)
        else scanMark c cs

/-- The reason why no more tokens can be read, and where. -/
inductive Stop where
  | fault (cause : Cause) (location : Location)
  | valueless (text : List Char)
deriving DecidableEq, Repr

/-- The tokens of a text that starts at `loc`, of which the first `skip` characters belong to what was
scanned before. -/
def tokensFrom : (skip : Nat) → (loc : Location) → List Char → Except Stop (List Token)
  | _, loc, [] => .ok [⟨.eof, loc⟩]
  | skip + 1, loc, c :: cs => tokensFrom skip (loc.next c) cs
  | 0, loc, c :: cs =>
      match scan c cs with
      | .gap width => tokensFrom (width - 1) (loc.next c) cs
      | .token kind width => (⟨kind, loc⟩ :: ·) <$> tokensFrom (width - 1) (loc.next c) cs
      | .fault cause before => .error (.fault cause (loc.after ((c :: cs).take before)))
      | .valueless text => .error (.valueless text)

/-- Characters that belong to what was scanned before only move the location. -/
theorem tokensFrom_skip (skip : Nat) (loc : Location) (cs : List Char) :
    tokensFrom skip loc cs = tokensFrom 0 (loc.after (cs.take skip)) (cs.drop skip) := by
  induction cs generalizing skip loc with
  | nil => cases skip <;> simp [tokensFrom]
  | cons c cs ih =>
      cases skip with
      | zero => simp
      | succ n =>
          rw [tokensFrom, ih]
          simp

/-- The line that a fault quotes: the line it stands on, except that a comment which is never closed
quotes the line on which the text ends. -/
def quotedLine (source : List Char) (cause : Cause) (loc : Location) : List Char :=
  let all := Text.lines source
  match cause with
  | .openComment => all.getLast?.getD []
  | _ => all[(loc.line - 1).toNat]?.getD []

/-- The failure of a text in which reading stopped. -/
def Stop.toFailure (source : List Char) : Stop → Failure
  | .fault cause loc =>
      .fault
        { stage := .lexical
          text := cause.message
          location := some loc
          sourceLine := some (String.ofList (quotedLine source cause loc)) }
  | .valueless text => .numeral (String.ofList text)

/-- The tokens of a source text, the last of which marks its end. -/
def tokenize (source : String) (file : Option String) : Except Failure (List Token) :=
  (tokensFrom 0 (Location.start file) source.toList).mapError (Stop.toFailure source.toList)

end ScriptLens.Token
