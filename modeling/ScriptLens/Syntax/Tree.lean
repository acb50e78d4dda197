import ScriptLens.Token.Basic

/-!
# Programs

The syntax tree of a CursorScript program.  Every node carries the location it was read at, if it was
read from a text at all.
-/

namespace ScriptLens

/-- Operators in front of an operand. -/
inductive UnaryOp where
  | negate
  | invert
deriving DecidableEq, Repr

/-- Operators between two operands. -/
inductive BinaryOp where
  | either
  | both
  | equal
  | notEqual
  | less
  | greater
  | lessEqual
  | greaterEqual
  | add
  | subtract
  | multiply
  | divide
  | remainder
deriving DecidableEq, Repr

/-- The mark that writes a unary operator. -/
def UnaryOp.mark : UnaryOp → Mark
  | .negate => .minus
  | .invert => .bang

/-- The unary operator that a mark writes. -/
def Mark.unary? : Mark → Option UnaryOp
  | .minus => some .negate
  | .bang => some .invert
  | _ => none

/-- The mark that writes a binary operator. -/
def BinaryOp.mark : BinaryOp → Mark
  | .either => .either
  | .both => .both
  | .equal => .equal
  | .notEqual => .notEqual
  | .less => .less
  | .greater => .greater
  | .lessEqual => .lessEqual
  | .greaterEqual => .greaterEqual
  | .add => .plus
  | .subtract => .minus
  | .multiply => .star
  | .divide => .slash
  | .remainder => .percent

/-- The binary operator that a mark writes. -/
def Mark.binary? : Mark → Option BinaryOp
  | .either => some .either
  | .both => some .both
  | .equal => some .equal
  | .notEqual => some .notEqual
  | .less => some .less
  | .greater => some .greater
  | .lessEqual => some .lessEqual
  | .greaterEqual => some .greaterEqual
  | .plus => some .add
  | .minus => some .subtract
  | .star => some .multiply
  | .slash => some .divide
  | .percent => some .remainder
  | _ => none

/-- How tightly a binary operator binds; a greater number binds tighter. -/
def BinaryOp.precedence : BinaryOp → Nat
  | .either => 1
  | .both => 2
  | .equal | .notEqual => 3
  | .less | .greater | .lessEqual | .greaterEqual => 4
  | .add | .subtract => 5
  | .multiply | .divide | .remainder => 6

mutual

/-- Expressions. -/
inductive Expr where
  | number (value : Binary64) (location : Option Location)
  | string (value : String) (location : Option Location)
  | identifier (name : String) (location : Option Location)
  | array (elements : List Expr) (location : Option Location)
  | object (properties : List Property) (location : Option Location)
  /-- A function without a name. -/
  | lambda (parameters : List String) (body : List Stmt) (location : Option Location)
  | call (callee : Expr) (arguments : List Expr) (location : Option Location)
  /-- A member chosen by name; the name has a location of its own. -/
  | member (object : Expr) (name : String) (nameLocation location : Option Location)
  /-- A member chosen by the value of an expression. -/
  | index (object key : Expr) (location : Option Location)
  | binary (op : BinaryOp) (left right : Expr) (location : Option Location)
  | unary (op : UnaryOp) (operand : Expr) (location : Option Location)
  | assign (target value : Expr) (location : Option Location)

/-- An entry of an object literal.  Without a value it stands for the variable of the same name. -/
inductive Property where
  | mk (key : String) (value : Option Expr) (location : Option Location)

/-- Statements. -/
inductive Stmt where
  /-- A variable, or a constant. -/
  | declare (constant : Bool) (name : String) (value : Option Expr) (doc : Option String)
      (location : Option Location)
  | function (name : String) (parameters : List String) (body : List Stmt) (doc : Option String)
      (location : Option Location)
  /-- Names taken from another module. -/
  | imports (names : List String) (source : String) (location : Option Location)
  | conditional (condition : Expr) (body : List Stmt) (otherwise : Option (List Stmt))
      (location : Option Location)
  | loop (condition : Expr) (body : List Stmt) (location : Option Location)
  | result (value : Option Expr) (location : Option Location)
  | expression (value : Expr) (location : Option Location)
  /-- A statement of a kind that only another tool knows, with the parts it may hold. -/
  | foreign (body thenBranch elseBranch : Slot) (location : Option Location)

/-- A part of a foreign statement. -/
inductive Slot where
  | absent
  | text (value : String)
  | statements (body : List Stmt)

end

/-- A whole program. -/
structure Program where
  body : List Stmt
  location : Option Location := none

namespace Expr

/-- Where an expression was read. -/
def location : Expr → Option Location
  | .number _ loc => loc
  | .string _ loc => loc
  | .identifier _ loc => loc
  | .array _ loc => loc
  | .object _ loc => loc
  | .lambda _ _ loc => loc
  | .call _ _ loc => loc
  | .member _ _ _ loc => loc
  | .index _ _ loc => loc
  | .binary _ _ _ loc => loc
  | .unary _ _ loc => loc
  | .assign _ _ loc => loc

/-- Only a name or a member can be assigned to. -/
def isTarget : Expr → Bool
  | .identifier _ _ => true
  | .member _ _ _ _ => true
  | .index _ _ _ => true
  | _ => false

end Expr

/-- The key of an entry. -/
def Property.key : Property → String
  | .mk key _ _ => key

/-- The value of an entry. -/
def Property.value : Property → Option Expr
  | .mk _ value _ => value

/-- Where an entry was read. -/
def Property.location : Property → Option Location
  | .mk _ _ loc => loc

/-- Where a statement was read. -/
def Stmt.location : Stmt → Option Location
  | .declare _ _ _ _ loc => loc
  | .function _ _ _ _ loc => loc
  | .imports _ _ loc => loc
  | .conditional _ _ _ loc => loc
  | .loop _ _ loc => loc
  | .result _ loc => loc
  | .expression _ loc => loc
  | .foreign _ _ _ loc => loc

end ScriptLens
