import ScriptLens.Failure
import ScriptLens.Session.Event
import ScriptLens.Text.Digit
import ScriptLens.Text.Blank
import ScriptLens.Text.Lines

/-!
# Command line

The options of the server.  A long option may be cut short as long as it stays unambiguous, and takes its
value as the next argument or behind an equals sign.  All arguments are told apart before the first one
takes effect, and what no option takes is reported last.  Two dashes behind an equals sign leave an option
without a value; only the level is then missed when the server is launched.
-/

namespace ScriptLens.Server

/-- What the command line asks for.  An option that was left without a value has none. -/
structure Options where
  tcp : Bool := false
  host : Option String := some "127.0.0.1"
  port : Option Int := some 2087
  logLevel : Option Level := some .info
deriving DecidableEq, Repr

/-- How the server talks to its editor. -/
def Options.transport (o : Options) : Transport :=
  if o.tcp then .tcp o.host o.port else .stdio

/-- How the server is started. -/
structure Launch where
  transport : Transport
  level : Level
deriving DecidableEq, Repr

/-- What starting the server reports, at the chosen level. -/
def Launch.events (l : Launch) : List Event :=
  [Event.starting l.transport].filter fun e => decide (l.level.number ≤ e.level.number)

/-- What the command line can ask for. -/
inductive Flag where
  | help
  | tcp
  | host
  | port
  | logLevel
deriving DecidableEq, Repr

namespace Flag

/-- Every spelling of an option, in the order in which they are listed. -/
def spellings : List (String × Flag) :=
  [("-h", .help), ("--help", .help), ("--tcp", .tcp), ("--host", .host), ("--port", .port),
    ("--log-level", .logLevel)]

/-- The option with exactly this spelling. -/
def ofSpelling? (text : String) : Option Flag :=
  (spellings.find? fun s => s.1 = text).map Prod.snd

/-- The name of an option in a message. -/
def label : Flag → String
  | .help => "-h/--help"
  | .tcp => "--tcp"
  | .host => "--host"
  | .port => "--port"
  | .logLevel => "--log-level"

/-- Whether an option takes a value. -/
def takesValue : Flag → Bool
  | .help => false
  | .tcp => false
  | _ => true

end Flag

/-- What is wrong with a command line. -/
inductive Misuse where
  | ambiguous (argument : String) (candidates : List String)
  | noValue (flag : Flag)
  | unusedValue (flag : Flag) (value : String)
  | badPort (value : String)
  | badLevel (value : String)
  | unrecognized (arguments : List String)
deriving DecidableEq, Repr

/-- The message about a misuse. -/
def Misuse.message : Misuse → String
  | .ambiguous argument candidates =>
      "ambiguous option: " ++ argument ++ " could match " ++ ", ".intercalate candidates
  | .noValue flag => "argument " ++ flag.label ++ ": expected one argument"
  | .unusedValue flag value =>
      "argument " ++ flag.label ++ ": ignored explicit argument " ++ Text.quoted value
  | .badPort value =>
      "argument " ++ Flag.port.label ++ ": invalid int value: " ++ Text.quoted value
  | .badLevel value =>
      "argument " ++ Flag.logLevel.label ++ ": invalid choice: " ++ Text.quoted value
        ++ " (choose from "
        ++ ", ".intercalate (Level.all.map fun level => Text.quoted level.option) ++ ")"
  | .unrecognized arguments => "unrecognized arguments: " ++ " ".intercalate arguments

/-- Why the server is not started. -/
inductive Halt where
  | help
  | misuse (problem : Misuse)
  /-- The level was left without a value. -/
  | noLevel
deriving DecidableEq, Repr

/-! ### Integers -/

/-- White space around an integer. -/
def isMargin (c : Char) : Bool :=
  Text.isBlank c && !(decide (0x1C ≤ c.toNat) && decide (c.toNat ≤ 0x1F))

/-- The digits of an integer, among which single underscores may stand. -/
def groupedDigits? (cs : List Char) : Option (List Nat) :=
  let groups := Text.pieces '_' cs
  if groups.any List.isEmpty then none
  else (groups.mapM Text.decimalValues?).map List.flatten

/-- The integer that a text writes: a sign or none, and decimal digits of any script. -/
def integer? (text : List Char) : Option Int :=
  let core := ((text.dropWhile isMargin).reverse.dropWhile isMargin).reverse
  let (negative, digits) := match core with
    | '-' :: rest => (true, rest)
    | '+' :: rest => (false, rest)
    | _ => (false, core)
  match groupedDigits? digits with
  | none => none
  | some values =>
      if maxIntegerDigits < values.length then none
      else
        let size : Int := Text.ofDigits values
        some (if negative then -size else size)

/-! ### Telling arguments apart -/

/-- What an argument is. -/
inductive Argument where
  /-- An option, whether it has one letter, and the text that came with it. -/
  | flag (flag : Flag) (short : Bool) (value : Option String)
  /-- Something that looks like an option. -/
  | unknown (text : String)
  | plain (text : String)
  /-- The mark behind which there are no options. -/
  | separator
deriving DecidableEq, Repr

/-- A number below zero, which is no option.  One line feed may follow it. -/
def isNegativeNumber (cs : List Char) : Bool :=
  let core := if cs.getLast? = some '\n' then cs.dropLast else cs
  match core with
  | '-' :: rest =>
      let fraction := rest.dropWhile Text.isDecimal
      match fraction with
      | [] => !rest.isEmpty
      | '.' :: decimals => !decimals.isEmpty && decimals.all Text.isDecimal
      | _ => false
  | _ => false

/-- The text before the first equals sign, and the text behind it if there is one. -/
def splitAtEquals (text : String) : String × Option String :=
  let name := text.toList.takeWhile (· ≠ '=')
  match text.toList.drop name.length with
  | [] => (text, none)
  | _ :: value => (String.ofList name, some (String.ofList value))

/-- The options that a text may stand for, with their spellings. -/
def candidates (text : String) : List (String × Argument) :=
  let (name, value) := splitAtEquals text
  match text.toList with
  | '-' :: '-' :: _ =>
      (Flag.spellings.filter fun s => name.toList.isPrefixOf s.1.toList).map fun s =>
        (s.1, .flag s.2 false value)
  | '-' :: c :: rest =>
      if c = 'h' then [("-h", .flag .help true (some (String.ofList rest)))] else []
  | _ => []

/-- Tell what an argument is that is neither an option in full nor a plain word. -/
def classifyDashed (text : String) : Except Misuse Argument :=
  match candidates text with
  | [(_, argument)] => .ok argument
  | [] =>
      .ok (if isNegativeNumber text.toList || text.toList.contains ' ' then .plain text
        else .unknown text)
  | several => .error (.ambiguous text (several.map Prod.fst))

/-- Tell what an argument is. -/
def classify (text : String) : Except Misuse Argument :=
  match text.toList with
  | '-' :: _ :: _ =>
      match Flag.ofSpelling? text with
      | some flag => .ok (.flag flag (text = "-h") none)
      | none =>
          let (name, value) := splitAtEquals text
          match value, Flag.ofSpelling? name with
          | some _, some flag => .ok (.flag flag (name = "-h") value)
          | _, _ => classifyDashed text
  | _ => .ok (.plain text)

/-- Tell what all arguments are.  Behind the separator everything is plain. -/
def classifyAll : List String → Except Misuse (List Argument)
  | [] => .ok []
  | text :: rest =>
      if text = "--" then .ok (.separator :: rest.map .plain)
      else do return (← classify text) :: (← classifyAll rest)

/-! ### Taking effect -/

/-- The value that leaves an option without one. -/
def withheld : String := "--"

/-- Leave an option without a value. -/
def Flag.clear (flag : Flag) (o : Options) : Options :=
  match flag with
  | .host => { o with host := none }
  | .port => { o with port := none }
  | .logLevel => { o with logLevel := none }
  | _ => o

/-- Set an option that takes a value.  Nothing is asked of a value that is withheld. -/
def Flag.assign (flag : Flag) (value : String) (o : Options) : Except Misuse Options :=
  if value = withheld then .ok (flag.clear o)
  else
    match flag with
    | .host => .ok { o with host := some value }
    | .port =>
        match integer? value.toList with
        | some number => .ok { o with port := some number }
        | none => .error (.badPort value)
    | .logLevel =>
        match Level.all.find? fun level => level.option = value with
        | some level => .ok { o with logLevel := some level }
        | none => .error (.badLevel value)
    | _ => .ok o

/-- What comes of text behind an option that takes no value.  Behind the option of one letter each `h` asks
for help once more, and help is given if nothing else stands there; the first other character begins a value
that nothing uses.  An equals sign in front of the text makes no difference. -/
def surplus (flag : Flag) (short : Bool) (value : String) : Halt :=
  if short && !value.isEmpty then
    match value.toList.dropWhile (· = 'h') with
    | [] => .help
    | unused => .misuse (.unusedValue flag (String.ofList unused))
  else .misuse (.unusedValue flag value)

/-- Let the arguments take effect in turn; `extra` collects what no option takes. -/
def apply : (o : Options) → (extra : List String) → List Argument → Except Halt (Options × List String)
  | o, extra, [] => .ok (o, extra)
  | o, extra, .plain text :: rest => apply o (extra ++ [text]) rest
  | o, extra, .unknown text :: rest => apply o (extra ++ [text]) rest
  | o, extra, .separator :: rest => apply o (extra ++ ["--"]) rest
  | o, extra, .flag flag short (some value) :: rest =>
      if flag.takesValue then
        match flag.assign value o with
        | .ok changed => apply changed extra rest
        | .error problem => .error (.misuse problem)
      else .error (surplus flag short value)
  | _, _, .flag .help _ none :: _ => .error .help
  | o, extra, .flag .tcp _ none :: rest => apply { o with tcp := true } extra rest
  | o, extra, .flag flag _ none :: .plain value :: rest =>
      match flag.assign value o with
      | .ok changed => apply changed extra rest
      | .error problem => .error (.misuse problem)
  | _, _, .flag flag _ none :: _ => .error (.misuse (.noValue flag))

/-- The options that a command line asks for. -/
def parseOptions (arguments : List String) : Except Halt Options :=
  match classifyAll arguments with
  | .error problem => .error (.misuse problem)
  | .ok classified =>
      match apply {} [] classified with
      | .error halt => .error halt
      | .ok (options, []) => .ok options
      | .ok (_, extra) => .error (.misuse (.unrecognized extra))

/-- Start the server as the options ask.  Only the level has to have a value. -/
def Options.launch (o : Options) : Except Halt Launch :=
  match o.logLevel with
  | some level => .ok { transport := o.transport, level := level }
  | none => .error .noLevel

/-- Start the server as a command line asks. -/
def launch (arguments : List String) : Except Halt Launch :=
  (parseOptions arguments).bind Options.launch

/-- The options, in short. -/
def usage : String :=
  "usage: cursorscript-lsp [-h] [--tcp] [--host HOST] [--port PORT] [--log-level LEVEL]"

/-- What is written to standard error about a misuse. -/
def Misuse.line (problem : Misuse) : String :=
  "cursorscript-lsp: error: " ++ problem.message

/-- What is written to standard error when the level has no value. -/
def noLevelMessage : String :=
  "'list' object has no attribute 'upper'"

/-- The exit code of a command line that does not start the server. -/
def Halt.exitCode : Halt → Nat
  | .help => 0
  | .misuse _ => 2
  | .noLevel => 1

end ScriptLens.Server
