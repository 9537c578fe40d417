/-
LetFn/Reader/Course.lean

Reading without a measure.

The actions of `LetFn.Reader.Handlers` end by construction: their loops run
on what is left of the tokens, and their recursion on levels.  Here the same
handlers and loops stand as they would in a program that keeps no count of
either.  They are routines that call each other as they please: a loop goes
round until it is told to leave, and the loop over the statements of a block
may go round without moving on.

What such a definition means is its least solution: what never ends comes to
`none`.  That none of them does is not said here;
`LetFn.Proofs.Reader.Ending` shows it.

Single steps are the actions of `LetFn.Reader.Basic`.
-/
import LetFn.Reader.Handlers

namespace LetFn

namespace Reader

/-- What a reader does, if it comes to an end. -/
abbrev Course := StateT Reader Option

/-- What a reader does, if it comes to an end; it may fail. -/
abbrev Trial := ExceptT Diagnostic Course

namespace Trial

variable {α : Type}

/-- An action comes to its end. -/
instance : MonadLift Action Trial := ⟨fun A r => some (A.run r)⟩

/-- What a trial comes to, be it a value or a failure. -/
abbrev attempt (X : Trial α) : Trial (Except Diagnostic α) :=
  (do return .ok (← X.run) : Course (Except Diagnostic (Except Diagnostic α)))

end Trial

/-- What calls itself, directly or through others. -/
inductive Routine where
  /-- Skips the rest of a statement that could not be read, and tells whether
  that ended on the closing brace of the enclosing block. -/
  | synchronize (openBraces : Nat)
  /-- An expression: a level down, and up again however that ends. -/
  | expression (p : Precedence)
  /-- A leading part, and the links behind it that bind tighter than `p`. -/
  | climb (p : Precedence)
  /-- The links behind `left` that bind tighter than `p`. -/
  | links (p : Precedence) (left : ParsedExpr)
  /-- The handler of a leading part. -/
  | leading (form : Lead)
  /-- An operator and its operand. -/
  | unary
  /-- An expression in brackets. -/
  | group
  /-- The second branch of a conditional, if `else` follows. -/
  | alternative
  /-- A conditional, with one branch or two. -/
  | conditional
  /-- The parameters of a function, from the opening bracket on. -/
  | parameters
  /-- One more name and further ones behind commas, all behind those that were
  read `before`, which are in reverse. -/
  | moreParameters (before : List (Name Origin))
  /-- A function: its parameters and its body. -/
  | function
  /-- The handler of a link. -/
  | linked (form : Link) (p : Precedence) (left : ParsedExpr)
  /-- A binary operator and its right operand. -/
  | binary (p : Precedence) (left : ParsedExpr)
  /-- The argument list that makes `callee` a call. -/
  | call (callee : ParsedExpr)
  /-- The arguments of a call, from the opening bracket on. -/
  | arguments
  /-- Further arguments behind commas, and behind those that were read
  `before`, which are in reverse. -/
  | moreArguments (before : List ParsedExpr)
  /-- The statement at the current token; nothing for a lone semicolon. -/
  | statement
  /-- The handler of a statement that begins with a token of its own. -/
  | formed (form : StatementForm)
  /-- A name and the value bound to it. -/
  | binding
  /-- A value that is returned. -/
  | returning
  /-- An expression as a statement. -/
  | expressionStatement
  /-- A block: a level down and into the block, and back however that ends. -/
  | block
  /-- The statements of a block behind those that were read `before`, up to
  its closing brace. -/
  | body (before : List ParsedStmt)
  /-- The statements of a source behind those that were read `before`. -/
  | untilEnd (before : List ParsedStmt)

namespace Routine

open LetFn.Reader.Action (current peek expect accept fail resume descend ascend enterBlock
  leaveBlock parameter)

/-- What a routine gives, if it succeeds. -/
abbrev Result : Routine → Type
  | synchronize _ => Bool
  | parameters | moreParameters _ => List (Name Origin)
  | expression _ | climb _ | links .. | leading _ | unary | group | conditional | function
  | linked .. | binary .. | call _ => ParsedExpr
  | alternative => Option ParsedBlock
  | arguments | moreArguments _ => List ParsedExpr
  | statement => Option ParsedStmt
  | formed _ | binding | returning | expressionStatement => ParsedStmt
  | block => ParsedBlock
  | body _ | untilEnd _ => List ParsedStmt

/-- What a routine does. -/
def course : (c : Routine) → Trial c.Result
  | synchronize openBraces => do
    let r ← get
    match skipped r.inBlock openBraces r.window.current.kind with
    | .inl closed => return closed
    | .inr later =>
      let next := r.window.peek.kind
      if later = 0 && ((r.inBlock && next = .closeCurly) || next = .kwLet || next = .kwReturn) then
        return false
      else
        set r.advance
        synchronize later |>.course
  | expression p => do
    descend
    let found ← Trial.attempt (climb p |>.course)
    ascend
    resume found
  | climb p => do
    let token ← current
    match token.kind.lead? with
    | some form =>
      let left ← leading form |>.course
      links p left |>.course
    | none => fail ⟨.noExpression token.kind token.text, token.span.start⟩
  | links p left => do
    let next ← peek
    if next.kind ≠ .semicolon && p < next.kind.precedence then
      match next.kind.link? with
      | some form =>
        Action.advance
        let operator ← current
        let e ← linked form operator.kind.precedence left |>.course
        links p e |>.course
      | none => return left
    else return left
  | leading form =>
    match form with
    | .identifier => Action.identifier
    | .integer => Action.integer
    | .boolean => Action.boolean
    | .unary => unary |>.course
    | .group => group |>.course
    | .conditional => conditional |>.course
    | .function => function |>.course
  | unary => do
    let operator ← current
    Action.advance
    let operand ← expression .unary |>.course
    return .unary ⟨operator, operator.span.cover operand.origin.span⟩ operator.text operand
  | group => do
    Action.advance
    let e ← expression .lowest |>.course
    let _ ← expect .closeParen
    return e
  | alternative => do
    let next ← peek
    if next.kind = .kwElse then
      Action.advance
      let _ ← expect .openCurly
      let body ← block |>.course
      return some body
    else return none
  | conditional => do
    let keyword ← current
    let _ ← expect .openParen
    Action.advance
    let condition ← expression .lowest |>.course
    let _ ← expect .closeParen
    let _ ← expect .openCurly
    let consequence ← block |>.course
    let otherwise ← alternative |>.course
    let last ← current
    return .conditional ⟨keyword, keyword.span.cover last.span⟩ condition consequence otherwise
  | parameters => do
    let next ← peek
    if next.kind = .closeParen then
      Action.advance
      return []
    else
      let names ← moreParameters [] |>.course
      let _ ← expect .closeParen
      return names
  | moreParameters before => do
    let name ← parameter
    let next ← peek
    if next.kind = .comma then
      Action.advance
      moreParameters (name :: before) |>.course
    else return (name :: before).reverse
  | function => do
    let keyword ← current
    let _ ← expect .openParen
    let names ← parameters |>.course
    let _ ← expect .openCurly
    let body ← block |>.course
    let last ← current
    return .function ⟨keyword, keyword.span.cover last.span⟩ names body
  | linked form p left =>
    match form with
    | .binary => binary p left |>.course
    | .call => call left |>.course
  | binary p left => do
    let operator ← current
    Action.advance
    let right ← expression p |>.course
    return .binary ⟨operator, left.origin.span.cover right.origin.span⟩ left operator.text right
  | call callee => do
    let opening ← current
    let arguments ← arguments |>.course
    let last ← current
    return .call ⟨opening, callee.origin.span.cover last.span⟩ callee arguments
  | arguments => do
    let next ← peek
    if next.kind = .closeParen then
      Action.advance
      return []
    else
      Action.advance
      let first ← expression .lowest |>.course
      let es ← moreArguments [first] |>.course
      let _ ← expect .closeParen
      return es
  | moreArguments before => do
    let next ← peek
    if next.kind = .comma then
      Action.advance
      Action.advance
      let e ← expression .lowest |>.course
      moreArguments (e :: before) |>.course
    else return before.reverse
  | statement => do
    let first ← current
    if first.kind = .semicolon then return none
    else
      match first.kind.statementForm? with
      | some form => return some (← formed form |>.course)
      | none => return some (← expressionStatement |>.course)
  | formed form =>
    match form with
    | .binding => binding |>.course
    | .returning => returning |>.course
    | .block => return .block (← block |>.course)
  | binding => do
    let keyword ← current
    let name ← expect .identifier
    let _ ← expect .assignment
    Action.advance
    let value ← expression .lowest |>.course
    accept .semicolon
    let last ← current
    return .binding ⟨keyword, keyword.span.cover last.span⟩ ⟨.ofToken name, name.text⟩ value
  | returning => do
    let keyword ← current
    Action.advance
    let value ← expression .lowest |>.course
    accept .semicolon
    let last ← current
    return .returning ⟨keyword, keyword.span.cover last.span⟩ value
  | expressionStatement => do
    let first ← current
    let value ← expression .lowest |>.course
    accept .semicolon
    let last ← current
    return .expression ⟨first, first.span.cover last.span⟩ value
  | block => do
    let opening ← current
    descend
    Action.advance
    enterBlock
    let found ← Trial.attempt (body [] |>.course)
    leaveBlock
    ascend
    let body ← resume found
    let closing ← current
    return ⟨⟨opening, opening.span.cover closing.span⟩, body⟩
  | body before => do
    let token ← current
    if token.kind = .closeCurly then return before
    else if token.kind = .eof then fail ⟨.unexpectedToken .closeCurly .eof, token.span.start⟩
    else
      match ← Trial.attempt (statement |>.course) with
      | .ok found =>
        Action.advance
        body (before ++ found.toList) |>.course
      | .error e =>
        modify (record e)
        -- skipping may have ended on the closing brace, and then the loop goes round at once
        if ← synchronize 0 |>.course then body before |>.course
        else
          Action.advance
          body before |>.course
  | untilEnd before => do
    let token ← current
    if token.kind = .eof then return before
    else
      match ← Trial.attempt (statement |>.course) with
      | .ok found =>
        Action.advance
        untilEnd (before ++ found.toList) |>.course
      | .error e =>
        modify (record e)
        let _ ← synchronize 0 |>.course
        Action.advance
        untilEnd before |>.course
partial_fixpoint

/-- The loop over the statements of a block leaves on a closing brace, wherever
it comes upon it. -/
theorem run_body_of_closing {r : Reader} (before : List ParsedStmt)
    (hc : r.window.current.kind = .closeCurly) :
    (course (.body before)).run.run r = some (.ok before, r) := by
  rw [course]
  show (if r.window.current.kind = .closeCurly then _ else _ : Trial _).run.run r = _
  rw [if_pos hc]
  rfl

end Routine

/-- What a call does, with nothing said of its end. -/
def Call.course : (c : Call) → Trial c.Result
  | advance => Action.advance
  | expect kind => Action.expect kind
  | program => return ⟨← (Routine.untilEnd []).course⟩
  | expression p => (Routine.expression p).course
  | leading form => (Routine.leading form).course
  | linked form p left => (Routine.linked form p left).course
  | statement => Routine.statement.course
  | formed form => (Routine.formed form).course
  | expressionStatement => Routine.expressionStatement.course
  | block => Routine.block.course

end Reader

end LetFn
