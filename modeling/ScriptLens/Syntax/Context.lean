import ScriptLens.Syntax.Tree

/-!
# Unfinished programs

While a program is read, everything that has begun and not ended surrounds the place that was reached.
A `Scope` is a list of statements with an open end, and a `Hole` is a place for an expression; both
hold what was read so far and what lies around them, out to the program.  A `Reading` adds what may
come next at the place that was reached.
-/

namespace ScriptLens.Syntax

/-- A condition and its branch, read before the `else if` that goes on with the next one. -/
structure Branch where
  condition : Expr
  body : List Stmt
  location : Location

mutual

/-- A list of statements that is being read; `done` has the finished ones. -/
inductive Scope where
  | program (done : List Stmt) (location : Option Location)
  | function (name : String) (parameters : List String) (doc : Option String) (location : Location)
      (done : List Stmt) (outer : Scope)
  | lambda (parameters : List String) (location : Location) (done : List Stmt) (outer : Hole)
  /-- The branch of a condition, after the earlier branches of its chain, the latest first. -/
  | branch (condition : Expr) (location : Location) (chain : List Branch) (done : List Stmt)
      (outer : Scope)
  /-- The last branch of a chain, without a condition. -/
  | otherwise (last : Branch) (chain : List Branch) (done : List Stmt) (outer : Scope)
  | loop (condition : Expr) (location : Location) (done : List Stmt) (outer : Scope)

/-- A place for an expression. -/
inductive Hole where
  | statement (location : Location) (outer : Scope)
  | initial (constant : Bool) (name : String) (doc : Option String) (location : Location)
      (outer : Scope)
  | result (location : Location) (outer : Scope)
  | branchCondition (location : Location) (chain : List Branch) (outer : Scope)
  | loopCondition (location : Location) (outer : Scope)
  | parenthesis (outer : Hole)
  | element (location : Location) (done : List Expr) (outer : Hole)
  | property (location : Location) (done : List Property) (key : String) (keyLocation : Location)
      (outer : Hole)
  | argument (callee : Expr) (done : List Expr) (outer : Hole)
  | key (object : Expr) (outer : Hole)
  | operand (op : UnaryOp) (location : Location) (outer : Hole)
  | right (left : Expr) (op : BinaryOp) (outer : Hole)
  | assigned (target : Expr) (outer : Hole)

end

/-- A function whose parameters are being read. -/
inductive Callable where
  | named (name : String) (doc : Option String) (location : Location) (outer : Scope)
  | anonymous (location : Location) (outer : Hole)

/-- The head of a statement that starts with a condition. -/
inductive Guard where
  | branch (chain : List Branch)
  | loop

/-- What was read so far, by what comes next. -/
inductive Reading where
  /-- A statement, or the end of the scope; documentation for the statement may have been read. -/
  | statement (doc : Option String) (scope : Scope)
  /-- The first token of an expression. -/
  | operand (hole : Hole)
  /-- An operator that goes on with the expression, or what follows the expression. -/
  | operator (left : Expr) (hole : Hole)
  /-- An argument, or the end of the arguments. -/
  | argument (callee : Expr) (done : List Expr) (hole : Hole)
  /-- An element, or the end of the array. -/
  | element (location : Location) (done : List Expr) (hole : Hole)
  /-- A key, or the end of the object. -/
  | key (location : Location) (done : List Property) (hole : Hole)
  /-- The value of a key, or what follows the key. -/
  | value (location : Location) (done : List Property) (key : String) (keyLocation : Location)
      (hole : Hole)
  /-- The name of a member. -/
  | memberName (object : Expr) (hole : Hole)
  /-- What `import` takes. -/
  | importHead (location : Location) (scope : Scope)
  /-- A name inside the braces of an import, or their end. -/
  | importName (location : Location) (names : List String) (scope : Scope)
  /-- What follows a name inside the braces of an import. -/
  | importNext (location : Location) (names : List String) (scope : Scope)
  /-- The word `from`. -/
  | importFrom (location : Location) (names : List String) (scope : Scope)
  /-- The module of an import. -/
  | importSource (location : Location) (names : List String) (scope : Scope)
  /-- The name of a variable or constant. -/
  | declaredName (constant : Bool) (doc : Option String) (scope : Scope)
  /-- The initial value of a variable or constant. -/
  | initial (constant : Bool) (name : String) (doc : Option String) (location : Location)
      (scope : Scope)
  /-- What follows `fn` at the start of a statement. -/
  | functionHead (doc : Option String) (location : Location) (scope : Scope)
  /-- The parenthesis before parameters. -/
  | parameters (owner : Callable)
  /-- A parameter, or the end of the parameters. -/
  | parameterName (owner : Callable) (names : List String)
  /-- What follows a parameter. -/
  | parameterNext (owner : Callable) (names : List String)
  /-- The parenthesis before a condition. -/
  | condition (guard : Guard) (location : Location) (scope : Scope)
  /-- The brace that opens a scope. -/
  | block (inner : Scope)
  /-- The word `else`, or what follows the branch. -/
  | afterBranch (last : Branch) (chain : List Branch) (scope : Scope)
  /-- What `else` takes. -/
  | elseHead (last : Branch) (chain : List Branch) (scope : Scope)
  /-- The value of `return`, or what follows it. -/
  | result (location : Location) (scope : Scope)
  /-- Nothing: the program has ended. -/
  | complete (program : Program)

end ScriptLens.Syntax
