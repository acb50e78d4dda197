import ScriptLens.Proofs.Syntax.CorrectPrefix
import ScriptLens.Proofs.Syntax.Postfixes

/-!
# Programs by recursive descent

The grammar of programs as procedures that call each other.  A procedure looks at the token at a position, moves the
position on, calls other procedures, and gives back what it has read or a complaint.  At the mark of the end the
position stays where it is.

Nothing in the procedures or in what it means to run them (`Runs`) says that a run ends: a procedure that called
itself without moving on would have no run at all.  What the calls of a procedure have to do so that it has one, and
what can be concluded from a run, is said here for any contract between procedures and their callers.

Main statements: `exists_runs`, `Runs.unique` and `Runs.keeps`.
-/

namespace ScriptLens.Syntax.Descent

/-! ### Procedures -/

/-- A list of names between brackets. -/
inductive NameList where
  | parameters
  | imports
deriving DecidableEq, Repr

/-- The mark that ends a list of names. -/
def NameList.stop : NameList → Mark
  | .parameters => .closeParen
  | .imports => .closeBrace

/-- The complaint where a name is missing. -/
def NameList.missing : NameList → Complaint
  | .parameters => .parameterName
  | .imports => .importName

/-- The complaint where the list should end. -/
def NameList.unclosed : NameList → Complaint
  | .parameters => .parametersEnd
  | .imports => .importEnd

/-- One name more.  A name that is imported twice is listed once. -/
def NameList.add (names : List String) (name : String) : NameList → List String
  | .parameters => names ++ [name]
  | .imports => addName names name

/-- A list of expressions between brackets. -/
inductive ExprList where
  | arguments
  | elements
deriving DecidableEq, Repr

/-- The mark that ends a list of expressions. -/
def ExprList.stop : ExprList → Mark
  | .arguments => .closeParen
  | .elements => .closeBracket

/-- The complaint where the list should end. -/
def ExprList.unclosed : ExprList → Complaint
  | .arguments => .argumentsEnd
  | .elements => .arrayEnd

/-- What goes on with an operand: a call, an index or a member, or else a binary operator. -/
inductive Continuation where
  | suffix
  | binary (op : BinaryOp)
deriving DecidableEq, Repr

/-- How tightly the operand is bound to what goes on with it. -/
def Continuation.precedence : Continuation → Nat
  | .suffix => 7
  | .binary op => op.precedence

/-- What a token goes on with. -/
def continuation? : Kind → Option Continuation
  | .mark .openParen | .mark .openBracket | .mark .dot => some .suffix
  | .mark m => m.binary?.map .binary
  | _ => none

/-- The unary operator that a token writes. -/
def unary? : Kind → Option UnaryOp
  | .mark m => m.unary?
  | _ => none

/-- The key of a property that a token writes. -/
def key? : Kind → Option String
  | .identifier name => some name
  | .string text => some text
  | _ => none

/-- A procedure with its arguments, by the type of what it gives back.  Loops are procedures that call themselves
with what they have so far. -/
inductive Call : Type → Type where
  | program : Call Program
  /-- The statements of a program, or of a block. -/
  | statements (inBlock : Bool) (done : List Stmt) : Call (List Stmt)
  | semicolons : Call Unit
  /-- Documentation, of which the last counts. -/
  | documentation (seen : Option String) : Call (Option String)
  | statement (doc : Option String) : Call Stmt
  | importStatement : Call Stmt
  | declaration (doc : Option String) : Call Stmt
  /-- A function whose name was seen behind the word at its start. -/
  | function (name : String) (location : Location) (doc : Option String) : Call Stmt
  | conditional : Call Stmt
  | loop : Call Stmt
  | result : Call Stmt
  /-- A condition in parentheses behind a word. -/
  | condition (guard : Keyword) : Call Expr
  | block : Call (List Stmt)
  | parameters : Call (List String)
  | names (list : NameList) (done : List String) : Call (List String)
  | assignment : Call Expr
  /-- An operand with all that binds tighter than `floor` behind it. -/
  | expression (floor : Nat) : Call Expr
  | operations (floor : Nat) (left : Expr) : Call Expr
  | operation (left : Expr) (next : Continuation) : Call Expr
  | suffixes (left : Expr) : Call Expr
  | memberName : Call (String × Location)
  | operand : Call Expr
  | primary : Call Expr
  | expressions (list : ExprList) (done : List Expr) : Call (List Expr)
  | properties (done : List Property) : Call (List Property)

/-- What is left to do in a procedure. -/
inductive Act (α : Type) : Type 1 where
  | done (value : α)
  | fail (complaint : Complaint)
  /-- Look at the token so many places on. -/
  | look (ahead : Nat) (rest : Token → Act α)
  | advance (rest : Act α)
  | call {β : Type} (f : Call β) (rest : β → Act α)

namespace Act

variable {α β : Type}

/-- Do one thing after the other. -/
def bind : Act α → (α → Act β) → Act β
  | .done value, next => next value
  | .fail complaint, _ => .fail complaint
  | .look ahead rest, next => .look ahead fun t => (rest t).bind next
  | .advance rest, next => .advance (rest.bind next)
  | .call f rest, next => .call f fun value => (rest value).bind next

instance : Monad Act where
  pure := .done
  bind := bind

/-- The token at the position. -/
def current : Act Token := .look 0 .done

/-- The token behind it. -/
def following : Act Token := .look 1 .done

/-- Move on by one token. -/
def move : Act Unit := .advance (.done ())

/-- Call a procedure. -/
def invoke (f : Call α) : Act α := .call f .done

/-- Take a token of the given kind if there is one. -/
def accept (kind : Kind) : Act Bool := do
  let t ← current
  if t.kind = kind then do
    move
    return true
  else return false

/-- Take a token of the given kind. -/
def expect (kind : Kind) (complaint : Complaint) : Act Unit := do
  let t ← current
  if t.kind = kind then move else .fail complaint

/-- Take a token that writes something. -/
def expectSome (read? : Kind → Option α) (complaint : Complaint) : Act (α × Location) := do
  let t ← current
  match read? t.kind with
  | some value => do
      move
      return (value, t.location)
  | none => .fail complaint

end Act

/-- The name that a token writes. -/
def name? : Kind → Option String
  | .identifier name => some name
  | _ => none

/-- The text that a token writes. -/
def text? : Kind → Option String
  | .string text => some text
  | _ => none

open Act (current following move invoke accept expect expectSome)

/-- A statement that semicolons may follow. -/
def terminated (statement : Act Stmt) : Act Stmt := do
  let s ← statement
  invoke .semicolons
  return s

/-- A statement that is an expression. -/
def expressionStatement : Act Stmt := do
  let t ← current
  let e ← invoke .assignment
  return .expression e t.location

/-- What `import` takes. -/
def importedNames : Act (List String) := do
  if ← accept (.mark .openBrace) then invoke (.names .imports [])
  else do
    let name ← expectSome name? .importName
    return [name.1]

/-- The value behind a mark, if the mark is there. -/
def valueBehind (m : Mark) : Act (Option Expr) := do
  if ← accept (.mark m) then do
    let value ← invoke .assignment
    return some value
  else return none

/-- The other branch of a conditional. -/
def otherBranch : Act (Option (List Stmt)) := do
  if ← accept (.keyword .elseWord) then do
    let t ← current
    if t.kind = .keyword .ifWord then do
      let s ← invoke .conditional
      return some [s]
    else do
      let other ← invoke .block
      return some other
  else return none

/-- What a procedure does. -/
def body {α : Type} : Call α → Act α
  | .program => do
      let first ← current
      let all ← invoke (.statements false [])
      return ⟨all, some first.location⟩
  | .statements inBlock done => do
      invoke .semicolons
      let doc ← invoke (.documentation none)
      let t ← current
      if t.kind = .eof ∨ inBlock = true ∧ t.kind = .mark .closeBrace then return done
      else do
        let s ← invoke (.statement doc)
        invoke (.statements inBlock (done ++ [s]))
  | .semicolons => do
      if ← accept (.mark .semicolon) then invoke .semicolons else return ()
  | .documentation seen => do
      let t ← current
      match t.kind with
      | .doc text => do
          move
          invoke (.documentation (some text))
      | _ => return seen
  | .statement doc => do
      let t ← current
      let next ← following
      match t.kind with
      | .keyword .importWord => terminated (invoke .importStatement)
      | .keyword .letWord => terminated (invoke (.declaration doc))
      | .keyword .constWord => terminated (invoke (.declaration doc))
      | .keyword .fnWord =>
          match name? next.kind with
          | some name => invoke (.function name next.location doc)
          | none => terminated expressionStatement
      | .keyword .ifWord => invoke .conditional
      | .keyword .whileWord => invoke .loop
      | .keyword .returnWord => terminated (invoke .result)
      | _ => terminated expressionStatement
  | .importStatement => do
      let t ← current
      move
      let names ← importedNames
      expect (.keyword .fromWord) .fromWord
      let source ← expectSome text? .importSource
      return .imports names source.1 t.location
  | .declaration doc => do
      let t ← current
      move
      let name ← expectSome name? .variableName
      if t.kind = .keyword .constWord then do
        expect (.mark .assign) .constantValue
        let value ← invoke .assignment
        return .declare true name.1 (some value) doc name.2
      else do
        let value ← valueBehind .assign
        return .declare false name.1 value doc name.2
  | .function name location doc => do
      move
      move
      let parameters ← invoke .parameters
      let body ← invoke .block
      return .function name parameters body doc location
  | .conditional => do
      let t ← current
      move
      let condition ← invoke (.condition .ifWord)
      let body ← invoke .block
      let otherwise ← otherBranch
      return .conditional condition body otherwise t.location
  | .loop => do
      let t ← current
      move
      let condition ← invoke (.condition .whileWord)
      let body ← invoke .block
      return .loop condition body t.location
  | .result => do
      let t ← current
      move
      let next ← current
      if next.kind ∈ [.mark .semicolon, .mark .closeBrace, .eof] then return .result none t.location
      else do
        let value ← invoke .assignment
        return .result (some value) t.location
  | .condition guard => do
      expect (.mark .openParen) (.conditionStart guard)
      let e ← invoke .assignment
      expect (.mark .closeParen) .conditionEnd
      return e
  | .block => do
      expect (.mark .openBrace) .blockStart
      let all ← invoke (.statements true [])
      expect (.mark .closeBrace) .blockEnd
      return all
  | .parameters => do
      expect (.mark .openParen) .parametersStart
      invoke (.names .parameters [])
  | .names list done => do
      if ← accept (.mark list.stop) then return done
      else do
        let name ← expectSome name? list.missing
        if ← accept (.mark .comma) then invoke (.names list (list.add done name.1))
        else do
          expect (.mark list.stop) list.unclosed
          return list.add done name.1
  | .assignment => do
      let target ← invoke (.expression 0)
      let t ← current
      if t.kind = .mark .assign then
        if target.isTarget then do
          move
          let value ← invoke .assignment
          return .assign target value target.location
        else .fail .assignmentTarget
      else return target
  | .expression floor => do
      let left ← invoke .operand
      invoke (.operations floor left)
  | .operations floor left => do
      let t ← current
      match continuation? t.kind with
      | some next =>
          if next.precedence ≤ floor then return left
          else do
            let e ← invoke (.operation left next)
            invoke (.operations floor e)
      | none => return left
  | .operation left .suffix => invoke (.suffixes left)
  | .operation left (.binary op) => do
      move
      let right ← invoke (.expression op.precedence)
      return .binary op left right left.location
  | .suffixes left => do
      let t ← current
      match t.kind with
      | .mark .openParen => do
          move
          let arguments ← invoke (.expressions .arguments [])
          invoke (.suffixes (.call left arguments left.location))
      | .mark .openBracket => do
          move
          let key ← invoke .assignment
          expect (.mark .closeBracket) .indexEnd
          invoke (.suffixes (.index left key left.location))
      | .mark .dot => do
          move
          let name ← invoke .memberName
          invoke (.suffixes (.member left name.1 name.2 left.location))
      | _ => return left
  | .memberName => expectSome memberName? .memberName
  | .operand => do
      let t ← current
      match unary? t.kind with
      | some op => do
          move
          let e ← invoke .operand
          return .unary op e t.location
      | none => invoke .primary
  | .primary => do
      let t ← current
      match t.kind with
      | .number value => do
          move
          return .number value t.location
      | .string value => do
          move
          return .string value t.location
      | .identifier name => do
          move
          return .identifier name t.location
      | .mark .openParen => do
          move
          let e ← invoke .assignment
          expect (.mark .closeParen) .parenthesisEnd
          return e
      | .mark .openBracket => do
          move
          let elements ← invoke (.expressions .elements [])
          return .array elements t.location
      | .mark .openBrace => do
          move
          let properties ← invoke (.properties [])
          return .object properties t.location
      | .keyword .fnWord => do
          move
          let parameters ← invoke .parameters
          let body ← invoke .block
          return .lambda parameters body t.location
      | _ => .fail .expression
  | .expressions list done => do
      if ← accept (.mark list.stop) then return done
      else do
        let e ← invoke .assignment
        if ← accept (.mark .comma) then invoke (.expressions list (done ++ [e]))
        else do
          expect (.mark list.stop) list.unclosed
          return done ++ [e]
  | .properties done => do
      if ← accept (.mark .closeBrace) then return done
      else do
        let key ← expectSome key? .propertyName
        let value ← valueBehind .colon
        if ← accept (.mark .comma) then invoke (.properties (done ++ [.mk key.1 value key.2]))
        else do
          expect (.mark .closeBrace) .objectEnd
          return done ++ [.mk key.1 value key.2]

/-! ### Runs -/

/-- The token at a position.  Behind the last token the last one is seen again. -/
def tokenAt (tokens : List Token) (pos : Nat) : Token :=
  (tokens[pos]?.or tokens.getLast?).getD ⟨.eof, .start none⟩

/-- The position one token on.  The mark of the end is never passed. -/
def next (tokens : List Token) (pos : Nat) : Nat :=
  if (tokenAt tokens pos).kind = .eof then pos else pos + 1

/-- What is left to do runs from one position to another and ends with a result or a complaint. -/
inductive Runs (tokens : List Token) : {α : Type} → Act α → Nat → Except Complaint α → Nat → Prop
  | done {α : Type} {value : α} {pos : Nat} : Runs tokens (.done value) pos (.ok value) pos
  | fail {α : Type} {complaint : Complaint} {pos : Nat} :
      Runs tokens (.fail complaint : Act α) pos (.error complaint) pos
  | look {α : Type} {ahead pos stop : Nat} {rest : Token → Act α} {outcome : Except Complaint α}
      (h : Runs tokens (rest (tokenAt tokens (pos + ahead))) pos outcome stop) :
      Runs tokens (.look ahead rest) pos outcome stop
  | advance {α : Type} {pos stop : Nat} {rest : Act α} {outcome : Except Complaint α}
      (h : Runs tokens rest (next tokens pos) outcome stop) : Runs tokens (.advance rest) pos outcome stop
  | call {α β : Type} {f : Call β} {pos mid stop : Nat} {rest : β → Act α} {value : β}
      {outcome : Except Complaint α} (hcall : Runs tokens (body f) pos (.ok value) mid)
      (hrest : Runs tokens (rest value) mid outcome stop) : Runs tokens (.call f rest) pos outcome stop
  | abort {α β : Type} {f : Call β} {pos stop : Nat} {rest : β → Act α} {complaint : Complaint}
      (hcall : Runs tokens (body f) pos (.error complaint) stop) :
      Runs tokens (.call f rest) pos (.error complaint) stop

variable {tokens : List Token} {α β : Type}

/-- There is at most one run. -/
theorem Runs.unique {act : Act α} {pos stop stop' : Nat} {outcome outcome' : Except Complaint α}
    (h : Runs tokens act pos outcome stop) (h' : Runs tokens act pos outcome' stop') :
    outcome = outcome' ∧ stop = stop' := by
  induction h generalizing stop' with
  | done =>
      cases h'
      exact ⟨rfl, rfl⟩
  | fail =>
      cases h'
      exact ⟨rfl, rfl⟩
  | look _ ih =>
      cases h' with
      | look h' => exact ih h'
  | advance _ ih =>
      cases h' with
      | advance h' => exact ih h'
  | call _ _ ihcall ihrest =>
      cases h' with
      | call hcall' hrest' =>
          obtain ⟨hvalue, rfl⟩ := ihcall hcall'
          obtain rfl := Except.ok.inj hvalue
          exact ihrest hrest'
      | abort hcall' => cases (ihcall hcall').1
  | abort _ ihcall =>
      cases h' with
      | call hcall' _ => cases (ihcall hcall').1
      | abort hcall' =>
          obtain ⟨hcomplaint, rfl⟩ := ihcall hcall'
          obtain rfl := Except.error.inj hcomplaint
          exact ⟨rfl, rfl⟩

/-! ### Contracts -/

/-- What is promised of the runs of each procedure. -/
abbrev Contract := {α : Type} → Call α → (pos : Nat) → Except Complaint α → (stop : Nat) → Prop

/-- Go on with a result, and leave at a complaint. -/
def onward (rest : α → Nat → Prop) (post : Except Complaint β → Nat → Prop) :
    Except Complaint α → Nat → Prop
  | .ok value, stop => rest value stop
  | .error complaint, stop => post (.error complaint) stop

/-- What is left to do leads to `post` if every call keeps the contract, and calls nothing but what is `allowed`. -/
def Act.Meets (tokens : List Token) (allowed : {α : Type} → Call α → Nat → Prop) (contract : Contract) :
    Act α → Nat → (Except Complaint α → Nat → Prop) → Prop
  | .done value, pos, post => post (.ok value) pos
  | .fail complaint, pos, post => post (.error complaint) pos
  | .look ahead rest, pos, post => (rest (tokenAt tokens (pos + ahead))).Meets tokens allowed contract pos post
  | .advance rest, pos, post => rest.Meets tokens allowed contract (next tokens pos) post
  | .call f rest, pos, post =>
      allowed f pos ∧
      (∀ value mid, contract f pos (.ok value) mid → (rest value).Meets tokens allowed contract mid post) ∧
      ∀ complaint stop, contract f pos (.error complaint) stop → post (.error complaint) stop

section Meets

variable {allowed : {α : Type} → Call α → Nat → Prop} {contract : Contract} {pos : Nat}

@[simp] theorem onward_ok (rest : α → Nat → Prop) (post : Except Complaint β → Nat → Prop) (value : α)
    (stop : Nat) : onward rest post (.ok value) stop ↔ rest value stop := Iff.rfl

namespace Act

@[simp] theorem meets_pure (value : α) (post : Except Complaint α → Nat → Prop) :
    (pure value : Act α).Meets tokens allowed contract pos post ↔ post (.ok value) pos := Iff.rfl

@[simp] theorem meets_fail (complaint : Complaint) (post : Except Complaint α → Nat → Prop) :
    (fail complaint : Act α).Meets tokens allowed contract pos post ↔ post (.error complaint) pos := Iff.rfl

@[simp] theorem meets_current (post : Except Complaint Token → Nat → Prop) :
    current.Meets tokens allowed contract pos post ↔ post (.ok (tokenAt tokens pos)) pos := Iff.rfl

@[simp] theorem meets_move (post : Except Complaint Unit → Nat → Prop) :
    move.Meets tokens allowed contract pos post ↔ post (.ok ()) (next tokens pos) := Iff.rfl

@[simp] theorem meets_invoke (f : Call α) (post : Except Complaint α → Nat → Prop) :
    (invoke f).Meets tokens allowed contract pos post ↔
      allowed f pos ∧ (∀ value stop, contract f pos (.ok value) stop → post (.ok value) stop) ∧
      ∀ complaint stop, contract f pos (.error complaint) stop → post (.error complaint) stop := Iff.rfl

@[simp] theorem meets_bind (act : Act α) (rest : α → Act β) (post : Except Complaint β → Nat → Prop) :
    (act >>= rest).Meets tokens allowed contract pos post ↔
      act.Meets tokens allowed contract pos
        (onward (fun value mid => (rest value).Meets tokens allowed contract mid post) post) := by
  replace : ∀ pos, (act.bind rest).Meets tokens allowed contract pos post ↔
      act.Meets tokens allowed contract pos
        (onward (fun value mid => (rest value).Meets tokens allowed contract mid post) post) := by
    induction act with
    | done value => exact fun _ => Iff.rfl
    | fail complaint => exact fun _ => Iff.rfl
    | look ahead more ih => exact fun pos => ih _ pos
    | advance more ih => exact fun pos => ih _
    | call f more ih =>
        exact fun pos => and_congr_right fun _ => and_congr_left fun _ => forall_congr' fun value =>
          forall_congr' fun mid => imp_congr_right fun _ => ih value mid
  exact this pos

@[simp] theorem meets_accept (kind : Kind) (post : Except Complaint Bool → Nat → Prop) :
    (accept kind).Meets tokens allowed contract pos post ↔
      ((tokenAt tokens pos).kind = kind → post (.ok true) (next tokens pos)) ∧
        ((tokenAt tokens pos).kind ≠ kind → post (.ok false) pos) := by
  rw [accept, meets_bind, meets_current, onward_ok]
  by_cases h : (tokenAt tokens pos).kind = kind <;> simp [h]

@[simp] theorem meets_expect (kind : Kind) (complaint : Complaint) (post : Except Complaint Unit → Nat → Prop) :
    (expect kind complaint).Meets tokens allowed contract pos post ↔
      ((tokenAt tokens pos).kind = kind → post (.ok ()) (next tokens pos)) ∧
        ((tokenAt tokens pos).kind ≠ kind → post (.error complaint) pos) := by
  rw [expect, meets_bind, meets_current, onward_ok]
  by_cases h : (tokenAt tokens pos).kind = kind <;> simp [h]

@[simp] theorem meets_expectSome (read? : Kind → Option α) (complaint : Complaint)
    (post : Except Complaint (α × Location) → Nat → Prop) :
    (expectSome read? complaint).Meets tokens allowed contract pos post ↔
      (∀ value, read? (tokenAt tokens pos).kind = some value →
        post (.ok (value, (tokenAt tokens pos).location)) (next tokens pos)) ∧
      (read? (tokenAt tokens pos).kind = none → post (.error complaint) pos) := by
  rw [expectSome, meets_bind, meets_current, onward_ok]
  cases read? (tokenAt tokens pos).kind <;> simp

/-- What leads to more leads to less. -/
theorem Meets.mono {act : Act α} {post post' : Except Complaint α → Nat → Prop}
    (h : act.Meets tokens allowed contract pos post) (hpost : ∀ outcome stop, post outcome stop → post' outcome stop) :
    act.Meets tokens allowed contract pos post' := by
  induction act generalizing pos with
  | done value => exact hpost _ _ h
  | fail complaint => exact hpost _ _ h
  | look ahead rest ih => exact ih _ h
  | advance rest ih => exact ih h
  | call f rest ih =>
      exact ⟨h.1, fun value mid hmid => ih value (h.2.1 value mid hmid),
        fun complaint stop hstop => hpost _ _ (h.2.2 complaint stop hstop)⟩

/-- What leads to each of many things leads to all of them. -/
theorem meets_forall {ι : Sort*} {act : Act α} {post : ι → Except Complaint α → Nat → Prop}
    (h : ∀ i, act.Meets tokens (fun _ _ => True) contract pos (post i)) :
    act.Meets tokens (fun _ _ => True) contract pos fun outcome stop => ∀ i, post i outcome stop := by
  induction act generalizing pos with
  | done value => exact h
  | fail complaint => exact h
  | look ahead rest ih => exact ih _ h
  | advance rest ih => exact ih h
  | call f rest ih =>
      exact ⟨trivial, fun value mid hmid => ih value fun i => (h i).2.1 value mid hmid,
        fun complaint stop hstop i => (h i).2.2 complaint stop hstop⟩

end Act

end Meets

/-- Where the body of each procedure keeps its contract, if the procedures that it calls keep theirs, every run
keeps the contract.  What is known of all runs may be used. -/
theorem Runs.keeps (known contract : Contract)
    (hknown : ∀ {β : Type} {f : Call β} {pos outcome stop}, Runs tokens (body f) pos outcome stop →
      known f pos outcome stop)
    (hbody : ∀ {β : Type} (f : Call β) pos, (body f).Meets tokens (fun _ _ => True)
      (fun g mid outcome stop => known g mid outcome stop ∧ contract g mid outcome stop) pos (contract f pos))
    {act : Act α} {pos stop : Nat} {outcome : Except Complaint α} (h : Runs tokens act pos outcome stop)
    {post : Except Complaint α → Nat → Prop}
    (hmeets : act.Meets tokens (fun _ _ => True)
      (fun g mid outcome stop => known g mid outcome stop ∧ contract g mid outcome stop) pos post) :
    post outcome stop := by
  induction h with
  | done => exact hmeets
  | fail => exact hmeets
  | look _ ih => exact ih hmeets
  | advance _ ih => exact ih hmeets
  | call hcall _ ihcall ihrest =>
      exact ihrest (hmeets.2.1 _ _ ⟨hknown hcall, ihcall (hbody _ _)⟩)
  | abort hcall ihcall => exact hmeets.2.2 _ _ ⟨hknown hcall, ihcall (hbody _ _)⟩

/-- Where the body of each procedure keeps its contract and calls only what costs less, every procedure runs to an
end that keeps the contract. -/
theorem exists_runs {contract : Contract} {valid : Nat → Prop} {cost : {α : Type} → Call α → Nat → Nat}
    (hbody : ∀ {β : Type} (f : Call β) pos, valid pos →
      (body f).Meets tokens (fun g mid => valid mid ∧ cost g mid < cost f pos) contract pos (contract f pos))
    (f : Call α) {pos : Nat} (hpos : valid pos) :
    ∃ outcome stop, Runs tokens (body f) pos outcome stop ∧ contract f pos outcome stop := by
  induction hcost : cost f pos using Nat.strongRecOn generalizing α f pos with
  | ind n ih =>
      -- what the body has left to do ends, since its calls do
      have hrun : ∀ {α : Type} (act : Act α) (mid : Nat) (post : Except Complaint α → Nat → Prop),
          act.Meets tokens (fun g mid => valid mid ∧ cost g mid < n) contract mid post →
          ∃ outcome stop, Runs tokens act mid outcome stop ∧ post outcome stop := by
        intro α act
        induction act with
        | done value => exact fun mid post h => ⟨_, _, .done, h⟩
        | fail complaint => exact fun mid post h => ⟨_, _, .fail, h⟩
        | look ahead rest ihrest =>
            intro mid post h
            obtain ⟨outcome, stop, hruns, hpost⟩ := ihrest _ mid post h
            exact ⟨outcome, stop, .look hruns, hpost⟩
        | advance rest ihrest =>
            intro mid post h
            obtain ⟨outcome, stop, hruns, hpost⟩ := ihrest _ post h
            exact ⟨outcome, stop, .advance hruns, hpost⟩
        | call g rest ihrest =>
            intro mid post h
            obtain ⟨outcome, stop, hruns, hkept⟩ := ih _ h.1.2 g h.1.1 rfl
            cases outcome with
            | error complaint => exact ⟨_, _, .abort hruns, h.2.2 complaint stop hkept⟩
            | ok value =>
                obtain ⟨outcome, last, hrest, hpost⟩ := ihrest value stop post (h.2.1 value stop hkept)
                exact ⟨outcome, last, .call hruns hrest, hpost⟩
      exact hrun (body f) pos (contract f pos) (hcost ▸ hbody f pos hpos)

end ScriptLens.Syntax.Descent
