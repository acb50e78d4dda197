import ScriptLens.Failure
import ScriptLens.Syntax.Context
import ScriptLens.Text.Lines
import ScriptLens.Token.Scan

/-!
# Reading programs

A program is read one token at a time.  `Reading.step` takes what was read so far and the next token to
what is read then, or to a complaint that the token cannot stand there.  No token is looked at twice
and none is looked ahead at.
-/

namespace ScriptLens.Syntax

/-- What was expected where a token cannot stand. -/
inductive Complaint where
  | importName
  | importEnd
  | fromWord
  | importSource
  | variableName
  | constantValue
  | parametersStart
  | parameterName
  | parametersEnd
  | conditionStart (guard : Keyword)
  | conditionEnd
  | blockStart
  | blockEnd
  | assignmentTarget
  | indexEnd
  | memberName
  | argumentsEnd
  | parenthesisEnd
  | arrayEnd
  | propertyName
  | objectEnd
  | expression
deriving DecidableEq, Repr

/-- The text of a complaint. -/
def Complaint.text : Complaint → String
  | .importName => "Expected import name"
  | .importEnd => "Expected '\x7d' after import names"
  | .fromWord => "Expected 'from' after import names"
  | .importSource => "Expected module path string"
  | .variableName => "Expected variable name"
  | .constantValue => "Expected '=' in const declaration"
  | .parametersStart => "Expected '(' before parameters"
  | .parameterName => "Expected parameter name"
  | .parametersEnd => "Expected ')' after parameters"
  | .conditionStart guard => "Expected '(' after '" ++ guard.spelling ++ "'"
  | .conditionEnd => "Expected ')' after condition"
  | .blockStart => "Expected '\x7b' to start block"
  | .blockEnd => "Expected '\x7d' to end block"
  | .assignmentTarget => "Invalid assignment target"
  | .indexEnd => "Expected ']' after index"
  | .memberName => "Expected member name after '.'"
  | .argumentsEnd => "Expected ')' after arguments"
  | .parenthesisEnd => "Expected ')' after expression"
  | .arrayEnd => "Expected ']' after array elements"
  | .propertyName => "Expected property name"
  | .objectEnd => "Expected '\x7d' after object properties"
  | .expression => "Expected expression"

/-! ### Finished parts -/

/-- Add a finished statement to a scope. -/
def Scope.push (s : Stmt) : Scope → Scope
  | .program done loc => .program (done ++ [s]) loc
  | .function name parameters doc loc done outer =>
      .function name parameters doc loc (done ++ [s]) outer
  | .lambda parameters loc done outer => .lambda parameters loc (done ++ [s]) outer
  | .branch condition loc chain done outer => .branch condition loc chain (done ++ [s]) outer
  | .otherwise last chain done outer => .otherwise last chain (done ++ [s]) outer
  | .loop condition loc done outer => .loop condition loc (done ++ [s]) outer

/-- Put a finished conditional under the earlier branches of its chain. -/
def nest (chain : List Branch) (innermost : Stmt) : Stmt :=
  chain.foldl
    (fun inner branch => .conditional branch.condition branch.body (some [inner]) branch.location)
    innermost

/-- A scope with a finished chain of branches. -/
def Scope.pushChain (scope : Scope) (last : Branch) (otherwise : Option (List Stmt))
    (chain : List Branch) : Scope :=
  scope.push (nest chain (.conditional last.condition last.body otherwise last.location))

/-- After an operand without operators behind it: the unary operators in front of it take it. -/
def afterOperand (e : Expr) : Hole → Reading
  | .operand op loc outer => afterOperand (.unary op e loc) outer
  | hole => .operator e hole

/-- Let the binary operators that bind at least as tightly as `precedence` take their right operand. -/
def absorb (precedence : Nat) (e : Expr) : Hole → Expr × Hole
  | .right left op outer =>
      if precedence ≤ op.precedence then absorb precedence (.binary op left e left.location) outer
      else (e, .right left op outer)
  | hole => (e, hole)

/-- Close a scope at its brace.  The program itself has no brace to close. -/
def Scope.close : Scope → Except Complaint Reading
  | .program _ _ => .error .expression
  | .function name parameters doc loc done outer =>
      .ok (.statement none (outer.push (.function name parameters done doc loc)))
  | .lambda parameters loc done outer => .ok (afterOperand (.lambda parameters done loc) outer)
  | .branch condition loc chain done outer => .ok (.afterBranch ⟨condition, done, loc⟩ chain outer)
  | .otherwise last chain done outer =>
      .ok (.statement none (outer.pushChain last (some done) chain))
  | .loop condition loc done outer => .ok (.statement none (outer.push (.loop condition done loc)))

/-- End a scope at the end of the text.  Only the program may end there. -/
def Scope.finish : Scope → Except Complaint Reading
  | .program done loc => .ok (.complete ⟨done, loc⟩)
  | _ => .error .blockEnd

/-! ### Beginnings -/

/-- The first token of an expression. -/
def Hole.begin (hole : Hole) (t : Token) : Except Complaint Reading :=
  match t.kind with
  | .number value => .ok (afterOperand (.number value t.location) hole)
  | .string value => .ok (afterOperand (.string value t.location) hole)
  | .identifier name => .ok (afterOperand (.identifier name t.location) hole)
  | .keyword .fnWord => .ok (.parameters (.anonymous t.location hole))
  | .mark .minus => .ok (.operand (.operand .negate t.location hole))
  | .mark .bang => .ok (.operand (.operand .invert t.location hole))
  | .mark .openParen => .ok (.operand (.parenthesis hole))
  | .mark .openBracket => .ok (.element t.location [] hole)
  | .mark .openBrace => .ok (.key t.location [] hole)
  | _ => .error .expression

/-- The first token of a statement, or of what follows the last statement of a scope.  Semicolons
between statements mean nothing, but documentation has to be followed by a statement or the end of
the scope. -/
def Scope.begin (scope : Scope) (doc : Option String) (t : Token) : Except Complaint Reading :=
  match t.kind with
  | .eof => scope.finish
  | .mark .closeBrace => scope.close
  | .mark .semicolon =>
      if doc.isNone then .ok (.statement none scope) else .error .expression
  | .doc text => .ok (.statement (some text) scope)
  | .keyword .importWord => .ok (.importHead t.location scope)
  | .keyword .letWord => .ok (.declaredName false doc scope)
  | .keyword .constWord => .ok (.declaredName true doc scope)
  | .keyword .fnWord => .ok (.functionHead doc t.location scope)
  | .keyword .ifWord => .ok (.condition (.branch []) t.location scope)
  | .keyword .whileWord => .ok (.condition .loop t.location scope)
  | .keyword .returnWord => .ok (.result t.location scope)
  | _ => (Hole.statement t.location scope).begin t

/-- The parenthesis before the parameters of a function. -/
def Callable.begin (owner : Callable) (t : Token) : Except Complaint Reading :=
  if t.kind = .mark .openParen then .ok (.parameterName owner []) else .error .parametersStart

/-- The scope of a function after its parameters. -/
def Callable.scope (parameters : List String) : Callable → Scope
  | .named name doc loc outer => .function name parameters doc loc [] outer
  | .anonymous loc outer => .lambda parameters loc [] outer

/-- The brace before a scope. -/
def Scope.enter (inner : Scope) (t : Token) : Except Complaint Reading :=
  if t.kind = .mark .openBrace then .ok (.statement none inner) else .error .blockStart

/-! ### What follows an expression -/

/-- The token after an entry of an object. -/
def afterEntry (loc : Location) (done : List Property) (hole : Hole) (t : Token) :
    Except Complaint Reading :=
  match t.kind with
  | .mark .comma => .ok (.key loc done hole)
  | .mark .closeBrace => .ok (afterOperand (.object done loc) hole)
  | _ => .error .objectEnd

/-- The token after a whole expression. -/
def Hole.fill (e : Expr) (t : Token) : Hole → Except Complaint Reading
  | .statement loc outer => (outer.push (.expression e loc)).begin none t
  | .initial constant name doc loc outer =>
      (outer.push (.declare constant name (some e) doc loc)).begin none t
  | .result loc outer => (outer.push (.result (some e) loc)).begin none t
  | .branchCondition loc chain outer =>
      if t.kind = .mark .closeParen then .ok (.block (.branch e loc chain [] outer))
      else .error .conditionEnd
  | .loopCondition loc outer =>
      if t.kind = .mark .closeParen then .ok (.block (.loop e loc [] outer))
      else .error .conditionEnd
  | .parenthesis outer =>
      if t.kind = .mark .closeParen then .ok (afterOperand e outer) else .error .parenthesisEnd
  | .element loc done outer =>
      match t.kind with
      | .mark .comma => .ok (.element loc (done ++ [e]) outer)
      | .mark .closeBracket => .ok (afterOperand (.array (done ++ [e]) loc) outer)
      | _ => .error .arrayEnd
  | .property loc done name nameLoc outer =>
      afterEntry loc (done ++ [.mk name (some e) nameLoc]) outer t
  | .argument callee done outer =>
      match t.kind with
      | .mark .comma => .ok (.argument callee (done ++ [e]) outer)
      | .mark .closeParen => .ok (.operator (.call callee (done ++ [e]) callee.location) outer)
      | _ => .error .argumentsEnd
  | .key object outer =>
      if t.kind = .mark .closeBracket then .ok (.operator (.index object e object.location) outer)
      else .error .indexEnd
  | .operand op loc outer => Hole.fill (.unary op e loc) t outer
  | .right left op outer => Hole.fill (.binary op left e left.location) t outer
  | .assigned target outer => Hole.fill (.assign target e target.location) t outer

/-- The token after an operand.  A call, an index or a member belongs to the operand itself, and a
binary operator to all that binds at least as tightly before it.  An assignment takes the whole
expression before it as its target. -/
def Hole.extend (hole : Hole) (left : Expr) (t : Token) : Except Complaint Reading :=
  match t.kind with
  | .mark .openParen => .ok (.argument left [] hole)
  | .mark .openBracket => .ok (.operand (.key left hole))
  | .mark .dot => .ok (.memberName left hole)
  | .mark .assign =>
      let whole := absorb 0 left hole
      if whole.1.isTarget then .ok (.operand (.assigned whole.1 whole.2))
      else .error .assignmentTarget
  | .mark m =>
      match m.binary? with
      | some op =>
          let whole := absorb op.precedence left hole
          .ok (.operand (.right whole.1 op whole.2))
      | none => hole.fill left t
  | _ => hole.fill left t

/-! ### One token -/

/-- Add a name that is not there yet. -/
def addName (names : List String) (name : String) : List String :=
  if names.contains name then names else names ++ [name]

/-- What is read after one more token. -/
def Reading.step (r : Reading) (t : Token) : Except Complaint Reading :=
  match r with
  | .statement doc scope => scope.begin doc t
  | .operand hole => hole.begin t
  | .operator left hole => hole.extend left t
  | .argument callee done hole =>
      if t.kind = .mark .closeParen then .ok (.operator (.call callee done callee.location) hole)
      else (Hole.argument callee done hole).begin t
  | .element loc done hole =>
      if t.kind = .mark .closeBracket then .ok (afterOperand (.array done loc) hole)
      else (Hole.element loc done hole).begin t
  | .key loc done hole =>
      match t.kind with
      | .mark .closeBrace => .ok (afterOperand (.object done loc) hole)
      | .identifier name => .ok (.value loc done name t.location hole)
      | .string name => .ok (.value loc done name t.location hole)
      | _ => .error .propertyName
  | .value loc done name nameLoc hole =>
      if t.kind = .mark .colon then .ok (.operand (.property loc done name nameLoc hole))
      else afterEntry loc (done ++ [.mk name none nameLoc]) hole t
  | .memberName object hole =>
      match t.kind with
      | .identifier name => .ok (.operator (.member object name t.location object.location) hole)
      | .keyword word =>
          .ok (.operator (.member object word.spelling t.location object.location) hole)
      | _ => .error .memberName
  | .importHead loc scope =>
      match t.kind with
      | .mark .openBrace => .ok (.importName loc [] scope)
      | .identifier name => .ok (.importFrom loc [name] scope)
      | _ => .error .importName
  | .importName loc names scope =>
      match t.kind with
      | .mark .closeBrace => .ok (.importFrom loc names scope)
      | .identifier name => .ok (.importNext loc (addName names name) scope)
      | _ => .error .importName
  | .importNext loc names scope =>
      match t.kind with
      | .mark .comma => .ok (.importName loc names scope)
      | .mark .closeBrace => .ok (.importFrom loc names scope)
      | _ => .error .importEnd
  | .importFrom loc names scope =>
      if t.kind = .keyword .fromWord then .ok (.importSource loc names scope)
      else .error .fromWord
  | .importSource loc names scope =>
      match t.kind with
      | .string source => .ok (.statement none (scope.push (.imports names source loc)))
      | _ => .error .importSource
  | .declaredName constant doc scope =>
      match t.kind with
      | .identifier name => .ok (.initial constant name doc t.location scope)
      | _ => .error .variableName
  | .initial constant name doc loc scope =>
      if t.kind = .mark .assign then .ok (.operand (.initial constant name doc loc scope))
      else if constant then .error .constantValue
      else (scope.push (.declare constant name none doc loc)).begin none t
  | .functionHead doc loc scope =>
      match t.kind with
      | .identifier name => .ok (.parameters (.named name doc t.location scope))
      | _ => (Callable.anonymous loc (.statement loc scope)).begin t
  | .parameters owner => owner.begin t
  | .parameterName owner names =>
      match t.kind with
      | .mark .closeParen => .ok (.block (owner.scope names))
      | .identifier name => .ok (.parameterNext owner (names ++ [name]))
      | _ => .error .parameterName
  | .parameterNext owner names =>
      match t.kind with
      | .mark .comma => .ok (.parameterName owner names)
      | .mark .closeParen => .ok (.block (owner.scope names))
      | _ => .error .parametersEnd
  | .condition (.branch chain) loc scope =>
      if t.kind = .mark .openParen then .ok (.operand (.branchCondition loc chain scope))
      else .error (.conditionStart .ifWord)
  | .condition .loop loc scope =>
      if t.kind = .mark .openParen then .ok (.operand (.loopCondition loc scope))
      else .error (.conditionStart .whileWord)
  | .block inner => inner.enter t
  | .afterBranch last chain scope =>
      if t.kind = .keyword .elseWord then .ok (.elseHead last chain scope)
      else (scope.pushChain last none chain).begin none t
  | .elseHead last chain scope =>
      if t.kind = .keyword .ifWord then .ok (.condition (.branch (last :: chain)) t.location scope)
      else (Scope.otherwise last chain [] scope).enter t
  | .result loc scope =>
      match t.kind with
      | .eof | .mark .semicolon | .mark .closeBrace =>
          (scope.push (.result none loc)).begin none t
      | _ => (Hole.result loc scope).begin t
  | .complete program => .ok (.complete program)

/-! ### All tokens -/

/-- A token that cannot stand where it stands. -/
structure Misfit where
  complaint : Complaint
  token : Token
deriving DecidableEq, Repr

/-- Take one token, and name it if it does not fit. -/
def Reading.take (r : Reading) (t : Token) : Except Misfit Reading :=
  (r.step t).mapError (⟨·, t⟩)

/-- Take all tokens in turn. -/
def Reading.takeAll (r : Reading) : List Token → Except Misfit Reading
  | [] => .ok r
  | t :: ts => do (← r.take t).takeAll ts

/-- Reading on is reading from where the first tokens led. -/
theorem Reading.takeAll_append (r : Reading) (a b : List Token) :
    r.takeAll (a ++ b) = (r.takeAll a).bind (·.takeAll b) := by
  induction a generalizing r with
  | nil => rfl
  | cons t ts ih =>
      rw [List.cons_append, Reading.takeAll, Reading.takeAll]
      cases r.take t with
      | error e => rfl
      | ok s => exact ih s

/-- A program before its first token. -/
def Reading.start (tokens : List Token) : Reading :=
  .statement none (.program [] (tokens.head?.map Token.location))

/-- The program that a list of tokens writes.  The list should end with the mark of the end of the text;
a list without one is read as if the mark followed it. -/
def programOf (tokens : List Token) : Except Misfit Program := do
  match ← (Reading.start tokens).takeAll tokens with
  | .complete program => .ok program
  | unfinished =>
      let last : Token := ⟨.eof, (tokens.getLast?.map Token.location).getD (.start none)⟩
      match ← unfinished.take last with
      | .complete program => .ok program
      | _ => .error ⟨.expression, last⟩

/-- The fault of a token that does not fit.  A token of an unnamed text takes the name from `file`, and
the quoted line is cut out of `source` by the line of the token. -/
def Misfit.toFault (source : List Char) (file : Option String) (m : Misfit) : Fault :=
  let loc := m.token.location
  let found := m.token.kind.shown?.getD "end of file"
  { stage := .grammatical
    text := m.complaint.text ++ ", found " ++ found
    location := some { loc with file := loc.file.or file }
    sourceLine :=
      if 0 < loc.line then (Text.visualLines source)[(loc.line - 1).toNat]?.map String.ofList
      else none }

/-- Read a list of tokens as a program, quoting lines of `source` in a fault. -/
def readTokens (tokens : List Token) (source : String) (file : Option String) :
    Except Failure Program :=
  (programOf tokens).mapError fun m => .fault (m.toFault source.toList file)

/-- Read a source text as a program. -/
def read (source : String) (file : Option String) : Except Failure Program := do
  let tokens ← Token.tokenize source file
  readTokens tokens source file

end ScriptLens.Syntax
