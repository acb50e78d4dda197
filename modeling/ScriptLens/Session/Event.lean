/-!
# Log events

What a session, its server and the command line report about their work.  An event has a severity, a
channel and a message.
-/

namespace ScriptLens

/-- The severity of an event. -/
inductive Level where
  | debug
  | info
  | warning
  | error
deriving DecidableEq, Repr

namespace Level

/-- All severities, in ascending order. -/
def all : List Level := [.debug, .info, .warning, .error]

/-- The number of a severity; a greater number is more severe. -/
def number : Level → Nat
  | .debug => 10
  | .info => 20
  | .warning => 30
  | .error => 40

/-- The name of a severity in a log. -/
def label : Level → String
  | .debug => "DEBUG"
  | .info => "INFO"
  | .warning => "WARNING"
  | .error => "ERROR"

/-- The name of a severity on the command line. -/
def option : Level → String
  | .debug => "debug"
  | .info => "info"
  | .warning => "warning"
  | .error => "error"

end Level

/-- Who reports an event. -/
inductive Channel where
  | session
  | programs
  | server
deriving DecidableEq, Repr

/-- The name of a channel. -/
def Channel.label : Channel → String
  | .session => "cursorscript.lsp.engine"
  | .programs => "cursorscript.lsp.cache"
  | .server => "cursorscript-lsp"

/-- What the server was doing when it failed. -/
inductive Task where
  | analysis
  | completion
  | hover
  | definition
  | signature
  | outline
  | formatting
deriving DecidableEq, Repr

/-- How the failure of a task is reported, before the name of the document. -/
def Task.report : Task → String
  | .analysis => "Failed to analyze "
  | .completion => "Completion failed for "
  | .hover => "Hover failed for "
  | .definition => "Definition failed for "
  | .signature => "Signature help failed for "
  | .outline => "Document symbols failed for "
  | .formatting => "Formatting failed for "

/-- How a server talks to its editor.  A host or port may have been left without a value. -/
inductive Transport where
  | stdio
  | tcp (host : Option String) (port : Option Int)
deriving DecidableEq, Repr

/-- How a setting without a value is shown. -/
def noValue : String := "[]"

/-- Something worth reporting. -/
inductive Event where
  | opened (uri : String)
  | closed (uri : String)
  | readFailed (uri message : String)
  | readDone (uri : String) (statements : Nat)
  | evicted (uri : String)
  | changed (uri : String)
  | saved (uri : String)
  | taskFailed (task : Task) (uri : String)
  | initialized
  | stopping
  | starting (transport : Transport)
deriving DecidableEq, Repr

namespace Event

/-- The severity of an event. -/
def level : Event → Level
  | .readDone _ _ => .debug
  | .evicted _ => .debug
  | .changed _ => .debug
  | .taskFailed _ _ => .error
  | _ => .info

/-- Who reports an event. -/
def channel : Event → Channel
  | .opened _ => .session
  | .closed _ => .session
  | .readFailed _ _ => .session
  | .readDone _ _ => .session
  | .evicted _ => .programs
  | _ => .server

/-- The message of an event. -/
def message : Event → String
  | .opened uri => "Document opened: " ++ uri
  | .closed uri => "Document closed: " ++ uri
  | .readFailed uri text => "Parse failed for " ++ uri ++ ", keeping last good AST: " ++ text
  | .readDone uri statements =>
      "Parsed " ++ uri ++ ": " ++ toString statements ++ " top-level statements"
  | .evicted uri => "Evicted cached AST for " ++ uri
  | .changed uri => "Document changed: " ++ uri
  | .saved uri => "Document saved: " ++ uri
  | .taskFailed task uri => task.report ++ uri
  | .initialized => "CursorScript Language Server initialized successfully"
  | .stopping => "Shutting down CursorScript Language Server"
  | .starting .stdio => "Starting CursorScript LSP in stdio mode"
  | .starting (.tcp host port) =>
      "Starting CursorScript LSP in TCP mode on " ++ host.getD noValue ++ ":"
        ++ (port.map fun p => toString p).getD noValue

/-- An event on one line of a log. -/
def line (e : Event) : String :=
  "[" ++ e.level.label ++ "] " ++ e.channel.label ++ ": " ++ e.message

end Event

end ScriptLens
