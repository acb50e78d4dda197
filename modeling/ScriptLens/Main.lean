import ScriptLens.Server.Options

/-!
# The command

Settles the options of the language server and says how it starts.  Carrying requests between an editor and
`Server.handle` is left to whatever transport the server is embedded in.
-/

open ScriptLens

/-- Start as the command line asks. -/
def main (arguments : List String) : IO UInt32 := do
  match Server.launch arguments with
  | .ok start =>
      for event in start.events do
        IO.eprintln event.line
      return 0
  | .error halt =>
      match halt with
      | .help => IO.println Server.usage
      | .misuse problem =>
          IO.eprintln Server.usage
          IO.eprintln problem.line
      | .noLevel => IO.eprintln Server.noLevelMessage
      return halt.exitCode.toUInt32
