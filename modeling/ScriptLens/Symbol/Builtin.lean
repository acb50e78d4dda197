import ScriptLens.Symbol.Basic

/-!
# Built-in symbols

Every constant, function and namespace that CursorScript provides.  None of them is declared anywhere,
so their lines and columns are zero.
-/

namespace ScriptLens.Builtin

/-- A built-in constant. -/
def value (name type doc : String) : Symbol :=
  { name := name, kind := .constant, detail := "(constant: " ++ type ++ ")", documentation := some doc }

/-- A built-in function, completed as a call. -/
def callable (name parameters doc : String) : Symbol :=
  { name := name
    kind := .function
    detail := name ++ "(" ++ parameters ++ ")"
    documentation := some doc
    insertText := some (name ++ (if parameters.isEmpty then "()" else "($1)")) }

/-- A value in a namespace. -/
def field (owner name doc : String) : Symbol :=
  { name := name, kind := .property, detail := owner ++ "." ++ name, documentation := some doc }

/-- A function in a namespace. -/
def method (owner name parameters doc : String) : Symbol :=
  { name := name
    kind := .function
    detail := owner ++ "." ++ name ++ "(" ++ parameters ++ ")"
    documentation := some doc }

/-- A namespace. -/
def package (name doc : String) (members : List Symbol) : Symbol :=
  { name := name
    kind := .package
    detail := "namespace " ++ name
    documentation := some doc
    members := members }

/-- The built-in symbols in the order in which they are offered. -/
def symbols : List Symbol :=
  [ value "true" "boolean" "Boolean true.",
    value "false" "boolean" "Boolean false.",
    value "null" "null" "The absence of a value.",
    callable "print" "...values" "Write the values to standard output, separated by spaces.",
    callable "input" "prompt" "Read one line from standard input after showing `prompt`.",
    callable "len" "value" "Length of a string, array or object.",
    callable "str" "value" "Convert a value to its string form.",
    callable "num" "value" "Parse a string as a number.",
    callable "typeof" "value" "Name of the runtime type of `value`.",
    callable "range" "start, end"
      "Array of the integers from `start` up to, not including, `end`.",
    callable "exit" "code" "Stop the script with the given exit code.",
    package "Math" "Mathematical functions and constants."
      [field "Math" "PI" "Ratio of a circle's circumference to its diameter.",
        field "Math" "E" "Euler's number.",
        method "Math" "abs" "n" "Absolute value of `n`.",
        method "Math" "floor" "n" "Largest integer less than or equal to `n`.",
        method "Math" "ceil" "n" "Smallest integer greater than or equal to `n`.",
        method "Math" "round" "n" "`n` rounded to the nearest integer.",
        method "Math" "sqrt" "n" "Square root of `n`.",
        method "Math" "pow" "base, exponent" "`base` raised to `exponent`.",
        method "Math" "min" "a, b" "The smaller of `a` and `b`.",
        method "Math" "max" "a, b" "The larger of `a` and `b`.",
        method "Math" "sin" "n" "Sine of `n` radians.",
        method "Math" "cos" "n" "Cosine of `n` radians.",
        method "Math" "random" "" "Pseudo-random number in [0, 1)."],
    package "Window" "Terminal window control."
      [method "Window" "create" "width, height, title" "Open a drawing window.",
        method "Window" "clear" "color" "Fill the window with `color`."],
    package "String" "String manipulation helpers."
      [method "String" "upper" "s" "`s` converted to upper case.",
        method "String" "lower" "s" "`s` converted to lower case.",
        method "String" "trim" "s" "`s` without leading and trailing whitespace.",
        method "String" "split" "s, separator" "Array of the pieces of `s` between separators.",
        method "String" "contains" "s, part" "Whether `part` occurs in `s`.",
        method "String" "replace" "s, old, new" "`s` with every `old` replaced by `new`."],
    package "Array" "Array helpers."
      [method "Array" "push" "array, value" "Append `value` to the end of `array`.",
        method "Array" "pop" "array" "Remove and return the last element of `array`.",
        method "Array" "join" "array, separator" "Concatenate the elements with `separator`.",
        method "Array" "reverse" "array" "Reverse `array` in place.",
        method "Array" "sort" "array" "Sort `array` in place."],
    package "Time" "Clocks and delays."
      [method "Time" "now" "" "Milliseconds since the Unix epoch.",
        method "Time" "sleep" "ms" "Pause the script for `ms` milliseconds."],
    package "File" "File system access."
      [method "File" "read" "path" "Contents of the file at `path`.",
        method "File" "write" "path, contents" "Replace the file at `path` with `contents`.",
        method "File" "exists" "path" "Whether a file exists at `path`."] ]

/-- The built-in symbol with a given name. -/
def find? (name : String) : Option Symbol :=
  Symbol.find? symbols name

end ScriptLens.Builtin

namespace ScriptLens.Symbol

/-- What a name means in a document: its first declaration there, or else what is built in. -/
def resolve? (locals : List Symbol) (name : String) : Option Symbol :=
  (find? locals name).or (Builtin.find? name)

end ScriptLens.Symbol
