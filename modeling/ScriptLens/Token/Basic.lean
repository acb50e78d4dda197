import ScriptLens.Location
import ScriptLens.Number.Shortest
import ScriptLens.Text.Quoted

/-!
# Tokens

The words of CursorScript.  A token is a kind, which holds the value of a literal or name, and the
location of its first character.
-/

namespace ScriptLens

/-- Reserved words. -/
inductive Keyword where
  | letWord
  | constWord
  | fnWord
  | ifWord
  | elseWord
  | whileWord
  | returnWord
  | importWord
  | fromWord
deriving DecidableEq, Repr

namespace Keyword

/-- Every reserved word. -/
def all : List Keyword :=
  [.letWord, .constWord, .fnWord, .ifWord, .elseWord, .whileWord, .returnWord, .importWord, .fromWord]

/-- How a reserved word is written. -/
def spelling : Keyword → String
  | .letWord => "let"
  | .constWord => "const"
  | .fnWord => "fn"
  | .ifWord => "if"
  | .elseWord => "else"
  | .whileWord => "while"
  | .returnWord => "return"
  | .importWord => "import"
  | .fromWord => "from"

/-- The reserved word with a given spelling. -/
def ofSpelling? (word : String) : Option Keyword :=
  all.find? fun keyword => keyword.spelling = word

end Keyword

/-- Operators and punctuation. -/
inductive Mark where
  | plus
  | minus
  | star
  | slash
  | percent
  | equal
  | notEqual
  | less
  | greater
  | lessEqual
  | greaterEqual
  | both
  | either
  | bang
  | assign
  | openParen
  | closeParen
  | openBrace
  | closeBrace
  | openBracket
  | closeBracket
  | comma
  | dot
  | colon
  | semicolon
deriving DecidableEq, Repr

/-- How a mark is written. -/
def Mark.spelling : Mark → String
  | .plus => "+"
  | .minus => "-"
  | .star => "*"
  | .slash => "/"
  | .percent => "%"
  | .equal => "=="
  | .notEqual => "!="
  | .less => "<"
  | .greater => ">"
  | .lessEqual => "<="
  | .greaterEqual => ">="
  | .both => "&&"
  | .either => "||"
  | .bang => "!"
  | .assign => "="
  | .openParen => "("
  | .closeParen => ")"
  | .openBrace => "\x7b"
  | .closeBrace => "\x7d"
  | .openBracket => "["
  | .closeBracket => "]"
  | .comma => ","
  | .dot => "."
  | .colon => ":"
  | .semicolon => ";"

/-- What a token is. -/
inductive Kind where
  /-- The end of the text. -/
  | eof
  | number (value : Binary64)
  | string (value : String)
  | identifier (name : String)
  | keyword (word : Keyword)
  | mark (m : Mark)
  /-- Documentation for the declaration that follows. -/
  | doc (text : String)
deriving DecidableEq, Repr

/-- The class of a reserved word. -/
def Keyword.label : Keyword → String
  | .letWord => "LET"
  | .constWord => "CONST"
  | .fnWord => "FN"
  | .ifWord => "IF"
  | .elseWord => "ELSE"
  | .whileWord => "WHILE"
  | .returnWord => "RETURN"
  | .importWord => "IMPORT"
  | .fromWord => "FROM"

/-- The class of a mark. -/
def Mark.label : Mark → String
  | .plus => "PLUS"
  | .minus => "MINUS"
  | .star => "STAR"
  | .slash => "SLASH"
  | .percent => "PERCENT"
  | .equal => "EQ"
  | .notEqual => "NE"
  | .less => "LT"
  | .greater => "GT"
  | .lessEqual => "LE"
  | .greaterEqual => "GE"
  | .both => "AND"
  | .either => "OR"
  | .bang => "BANG"
  | .assign => "ASSIGN"
  | .openParen => "LPAREN"
  | .closeParen => "RPAREN"
  | .openBrace => "LBRACE"
  | .closeBrace => "RBRACE"
  | .openBracket => "LBRACKET"
  | .closeBracket => "RBRACKET"
  | .comma => "COMMA"
  | .dot => "DOT"
  | .colon => "COLON"
  | .semicolon => "SEMICOLON"

namespace Kind

/-- The class of a kind, as tokens are listed. -/
def label : Kind → String
  | .eof => "EOF"
  | .number _ => "NUMBER"
  | .string _ => "STRING"
  | .identifier _ => "IDENTIFIER"
  | .keyword word => word.label
  | .mark m => m.label
  | .doc _ => "DOC_COMMENT"

/-- The value of a token as text; the end of the text has none. -/
def value? : Kind → Option String
  | .eof => none
  | .number value => some value.render
  | .string value => some value
  | .identifier name => some name
  | .keyword word => some word.spelling
  | .mark m => some m.spelling
  | .doc text => some text

/-- The value of a token as a message shows it: a number bare, any other text in quotes. -/
def shown? : Kind → Option String
  | .number value => some value.render
  | kind => kind.value?.map Text.quoted

end Kind

/-- A word of the source text and the location of its first character. -/
structure Token where
  kind : Kind
  location : Location
deriving DecidableEq, Repr

/-- A token on one line: class, value and location. -/
def Token.describe (t : Token) : String :=
  let value := match t.kind.shown? with
    | some text => text ++ ", "
    | none => ""
  "Token(" ++ t.kind.label ++ ", " ++ value ++ t.location.render ++ ")"

end ScriptLens
