/-
LetFn/Reader/Handlers.lean

What a reader does with its tokens: the handlers of expressions, statements
and blocks, the recovery from a statement that cannot be read, and the loops
over the statements of a block and of a source.

Each expression and each block takes a level while it is being read, and
gives it back however that ends (`expression`, `block`); a block is also
counted among the blocks around its statements.  Where a handler fails, it
leaves at once, and passes the failure on to the nearest of these two, or to
the sequence of statements it is in.

How expressions and blocks are read a level deeper is a parameter of the
handlers (`Inner`).  The levels are tied together by recursion
(`Inner.levels`); it goes one level further than the counter lets anything
descend.
-/
import LetFn.Reader.Basic

namespace LetFn

namespace Reader

/-- How expressions and blocks are read within others. -/
structure Inner where
  /-- Reads an expression, with the links that bind tighter than given. -/
  expression : Precedence → Action ParsedExpr
  block : Action ParsedBlock

namespace Action

/-! ### Leading parts -/

/-- The current token as a name. -/
def identifier : Action ParsedExpr := do
  let token ← current
  return .identifier ⟨.ofToken token, token.text⟩

/-- The current token as an integer. -/
def integer : Action ParsedExpr := do
  let token ← current
  match Text.integer? token.text with
  | some value => return .integer (.ofToken token) value
  | none => fail ⟨.badNumber token.text, token.span.start⟩

/-- The current token as a truth value. -/
def boolean : Action ParsedExpr := do
  let token ← current
  return .boolean (.ofToken token) (token.kind = .kwTrue)

/-- An operator and its operand. -/
def unary (inner : Inner) : Action ParsedExpr := do
  let operator ← current
  advance
  let operand ← inner.expression .unary
  return .unary ⟨operator, operator.span.cover operand.origin.span⟩ operator.text operand

/-- An expression in brackets. -/
def group (inner : Inner) : Action ParsedExpr := do
  advance
  let e ← inner.expression .lowest
  let _ ← expect .closeParen
  return e

/-- The second branch of a conditional, if `else` follows. -/
def alternative (inner : Inner) : Action (Option ParsedBlock) := do
  let next ← peek
  if next.kind = .kwElse then
    advance
    let _ ← expect .openCurly
    let body ← inner.block
    return some body
  else return none

/-- A conditional, with one branch or two. -/
def conditional (inner : Inner) : Action ParsedExpr := do
  let keyword ← current
  let _ ← expect .openParen
  advance
  let condition ← inner.expression .lowest
  let _ ← expect .closeParen
  let _ ← expect .openCurly
  let consequence ← inner.block
  let otherwise ← alternative inner
  let last ← current
  return .conditional ⟨keyword, keyword.span.cover last.span⟩ condition consequence otherwise

/-- Items between brackets, with commas between them, from the opening
bracket on. -/
def listed {α : Type} (item : Action α) : Action (List α) := do
  let next ← peek
  if next.kind = .closeParen then
    advance
    return []
  else
    let items ← separated .comma (by decide) item
    let _ ← expect .closeParen
    return items

/-- The name that has to follow the current token. -/
def parameter : Action (Name Origin) := do
  let token ← expect .identifier
  return ⟨.ofToken token, token.text⟩

/-- A function: its parameters and its body. -/
def function (inner : Inner) : Action ParsedExpr := do
  let keyword ← current
  let _ ← expect .openParen
  let names ← listed parameter
  let _ ← expect .openCurly
  let body ← inner.block
  let last ← current
  return .function ⟨keyword, keyword.span.cover last.span⟩ names body

/-- The handler of a leading part. -/
def leading (inner : Inner) : Lead → Action ParsedExpr
  | .identifier => identifier
  | .integer => integer
  | .boolean => boolean
  | .unary => unary inner
  | .group => group inner
  | .conditional => conditional inner
  | .function => function inner

/-! ### Links -/

/-- A binary operator and its right operand. -/
def binary (inner : Inner) (p : Precedence) (left : ParsedExpr) : Action ParsedExpr := do
  let operator ← current
  advance
  let right ← inner.expression p
  return .binary ⟨operator, left.origin.span.cover right.origin.span⟩ left operator.text right

/-- The expression that has to follow the current token. -/
def argument (inner : Inner) : Action ParsedExpr := do
  advance
  inner.expression .lowest

/-- The argument list that makes `callee` a call. -/
def call (inner : Inner) (callee : ParsedExpr) : Action ParsedExpr := do
  let opening ← current
  let arguments ← listed (argument inner)
  let last ← current
  return .call ⟨opening, callee.origin.span.cover last.span⟩ callee arguments

/-- The handler of a link. -/
def linked (inner : Inner) (p : Precedence) (left : ParsedExpr) : Link → Action ParsedExpr
  | .binary => binary inner p left
  | .call => call inner left

/-- The link that the current token makes, if it makes one. -/
def link (inner : Inner) (left : ParsedExpr) : Action ParsedExpr := do
  let token ← current
  match token.kind.link? with
  | some form => linked inner token.kind.precedence left form
  | none => return left

/-! ### Expressions -/

/-- The leading part of an expression at the current token. -/
def lead (inner : Inner) : Action ParsedExpr := do
  let token ← current
  match token.kind.lead? with
  | some form => leading inner form
  | none => fail ⟨.noExpression token.kind token.text, token.span.start⟩

/-- A leading part, and the links behind it that bind tighter than `p`. -/
def climb (inner : Inner) (p : Precedence) : Action ParsedExpr := do
  let left ← lead inner
  foldPeek (fun kind => kind ≠ .semicolon && p < kind.precedence)
    (by simp [Kind.precedence, Precedence.not_lt_lowest]) (link inner) left

/-- An expression, one level deeper than what it is in. -/
def expression (inner : Inner) (p : Precedence) : Action ParsedExpr := do
  descend
  let found ← attempt (climb inner p)
  ascend
  resume found

/-! ### Single statements -/

/-- A name and the value bound to it. -/
def binding (inner : Inner) : Action ParsedStmt := do
  let keyword ← current
  let name ← expect .identifier
  let _ ← expect .assignment
  advance
  let value ← inner.expression .lowest
  accept .semicolon
  let last ← current
  return .binding ⟨keyword, keyword.span.cover last.span⟩ ⟨.ofToken name, name.text⟩ value

/-- A value that is returned. -/
def returning (inner : Inner) : Action ParsedStmt := do
  let keyword ← current
  advance
  let value ← inner.expression .lowest
  accept .semicolon
  let last ← current
  return .returning ⟨keyword, keyword.span.cover last.span⟩ value

/-- An expression as a statement. -/
def expressionStatement (inner : Inner) : Action ParsedStmt := do
  let first ← current
  let value ← inner.expression .lowest
  accept .semicolon
  let last ← current
  return .expression ⟨first, first.span.cover last.span⟩ value

/-- A block as a statement. -/
def blockStatement (inner : Inner) : Action ParsedStmt := do
  let body ← inner.block
  return .block body

/-- The handler of a statement that begins with a token of its own. -/
def formed (inner : Inner) : StatementForm → Action ParsedStmt
  | .binding => binding inner
  | .returning => returning inner
  | .block => blockStatement inner

/-- The statement at the current token; nothing for a lone semicolon. -/
def statement (inner : Inner) : Action (Option ParsedStmt) := do
  let first ← current
  if first.kind = .semicolon then return none
  else
    match first.kind.statementForm? with
    | some form => return some (← formed inner form)
    | none => return some (← expressionStatement inner)

end Action

/-! ### Recovery -/

/-- What a token does to skipping, with so many braces open before it: it
ends it, and then was the closing brace of the enclosing block or was not, or
it leaves so many braces open. -/
def skipped (inBlock : Bool) (openBraces : Nat) : Kind → Bool ⊕ Nat
  | .eof => .inl false
  | .openCurly => .inr (openBraces + 1)
  | .closeCurly =>
    if 0 < openBraces then .inr (openBraces - 1)
    else if inBlock then .inl true
    else .inr openBraces
  | .semicolon => if openBraces = 0 then .inl false else .inr openBraces
  | _ => .inr openBraces

/-- Skips the rest of a statement that could not be read, and tells whether
that ended on the closing brace of the enclosing block. -/
def synchronize (openBraces : Nat) (r : Reader) : Bool × Reader :=
  match _h : skipped r.inBlock openBraces r.window.current.kind with
  | .inl closed => (closed, r)
  | .inr later =>
    let next := r.window.peek.kind
    if later = 0 && ((r.inBlock && next = .closeCurly) || next = .kwLet || next = .kwReturn) then
      (false, r)
    else r.advance.synchronize later
termination_by r.window.remaining
decreasing_by
  exact Window.remaining_advance_lt r.window.le_refl fun he => by rw [he] at _h; cases _h

theorem window_synchronize_le (openBraces : Nat) (r : Reader) :
    (r.synchronize openBraces).2.window ≤ r.window := by
  fun_induction synchronize openBraces r with
  | case1 openBraces r closed h => exact r.window.le_refl
  | case2 openBraces r later h next hnext => exact r.window.le_refl
  | case3 openBraces r later h next hnext ih => exact Window.le_trans ih r.window.advance_le

/-- Keeps what was wrong with a statement, and skips the rest of it. -/
def recover (e : Diagnostic) (r : Reader) : Bool × Reader := (r.record e).synchronize 0

theorem window_recover_le (e : Diagnostic) (r : Reader) : (r.recover e).2.window ≤ r.window :=
  window_synchronize_le 0 (r.record e)

/-! ### Sequences of statements -/

/-- Reads the statements of a block behind those that were read `before`, up
to its closing brace.  The source must not end in the block. -/
def body (inner : Inner) (before : List ParsedStmt) (r : Reader) :
    Except Diagnostic (List ParsedStmt) × Reader :=
  if r.window.current.kind = .closeCurly then (.ok before, r)
  else if _end : r.window.current.kind = .eof then
    (.error ⟨.unexpectedToken .closeCurly .eof, r.window.current.span.start⟩, r)
  else
    let o := (Action.statement inner).run r
    match o.1 with
    | .ok found => body inner (before ++ found.toList) o.2.advance
    | .error e =>
      let o' := o.2.recover e
      -- on the closing brace the sequence is over, and elsewhere it goes on behind the token
      if o'.1 then (.ok before, o'.2) else body inner before o'.2.advance
termination_by r.window.remaining
decreasing_by
  · exact Window.remaining_advance_lt (Action.forward _ r) _end
  · exact Window.remaining_advance_lt
      (Window.le_trans (window_recover_le _ _) (Action.forward _ r)) _end

/-- Reads the statements of a source behind those that were read `before`,
up to the end of the source. -/
def untilEnd (inner : Inner) (before : List ParsedStmt) (r : Reader) :
    List ParsedStmt × Reader :=
  if _end : r.window.current.kind = .eof then (before, r)
  else
    let o := (Action.statement inner).run r
    match o.1 with
    | .ok found => untilEnd inner (before ++ found.toList) o.2.advance
    | .error e => untilEnd inner before (o.2.recover e).2.advance
termination_by r.window.remaining
decreasing_by
  · exact Window.remaining_advance_lt (Action.forward _ r) _end
  · exact Window.remaining_advance_lt
      (Window.le_trans (window_recover_le _ _) (Action.forward _ r)) _end

section Turns

variable {inner : Inner} {before : List ParsedStmt} {r r' : Reader}
variable {found : Option ParsedStmt} {e : Diagnostic}

theorem body_of_ok (hc : r.window.current.kind ≠ .closeCurly) (he : r.window.current.kind ≠ .eof)
    (h : (Action.statement inner).run r = (.ok found, r')) :
    body inner before r = body inner (before ++ found.toList) r'.advance := by
  rw [body, if_neg hc, dif_neg he]
  simp only [h]

theorem body_of_closing (hc : r.window.current.kind ≠ .closeCurly)
    (he : r.window.current.kind ≠ .eof) (h : (Action.statement inner).run r = (.error e, r'))
    (hclosed : (r'.recover e).1) : body inner before r = (.ok before, (r'.recover e).2) := by
  rw [body, if_neg hc, dif_neg he]
  simp only [h, hclosed, if_true]

theorem body_of_error (hc : r.window.current.kind ≠ .closeCurly)
    (he : r.window.current.kind ≠ .eof) (h : (Action.statement inner).run r = (.error e, r'))
    (hclosed : (r'.recover e).1 = false) :
    body inner before r = body inner before (r'.recover e).2.advance := by
  rw [body, if_neg hc, dif_neg he]
  simp only [h, hclosed, Bool.false_eq_true, if_false]

theorem untilEnd_of_ok (he : r.window.current.kind ≠ .eof)
    (h : (Action.statement inner).run r = (.ok found, r')) :
    untilEnd inner before r = untilEnd inner (before ++ found.toList) r'.advance := by
  rw [untilEnd, dif_neg he]
  simp only [h]

theorem untilEnd_of_error (he : r.window.current.kind ≠ .eof)
    (h : (Action.statement inner).run r = (.error e, r')) :
    untilEnd inner before r = untilEnd inner before (r'.recover e).2.advance := by
  rw [untilEnd, dif_neg he]
  simp only [h]

end Turns

theorem window_body_le (inner : Inner) (before : List ParsedStmt) (r : Reader) :
    (body inner before r).2.window ≤ r.window := by
  fun_induction body inner before r with
  | case1 before r h => exact r.window.le_refl
  | case2 before r h he => exact r.window.le_refl
  | case3 before r h he o found hv ih =>
    exact Window.le_trans ih (Window.le_trans o.2.window.advance_le (Action.forward _ r))
  | case4 before r h he o e hv o' hc =>
    exact Window.le_trans (window_recover_le e o.2) (Action.forward _ r)
  | case5 before r h he o e hv o' hc ih =>
    exact Window.le_trans ih (Window.le_trans o'.2.window.advance_le
      (Window.le_trans (window_recover_le e o.2) (Action.forward _ r)))

theorem window_untilEnd_le (inner : Inner) (before : List ParsedStmt) (r : Reader) :
    (untilEnd inner before r).2.window ≤ r.window := by
  fun_induction untilEnd inner before r with
  | case1 before r h => exact r.window.le_refl
  | case2 before r h o found hv ih =>
    exact Window.le_trans ih (Window.le_trans o.2.window.advance_le (Action.forward _ r))
  | case3 before r h o e hv ih =>
    exact Window.le_trans ih (Window.le_trans (Window.advance_le _)
      (Window.le_trans (window_recover_le e o.2) (Action.forward _ r)))

namespace Action

/-- The statements of a block, from behind its opening brace up to the closing one. -/
def statements (inner : Inner) : Action (List ParsedStmt) :=
  ⟨body inner [], window_body_le inner []⟩

/-- A block, one level deeper than what it is in. -/
def block (inner : Inner) : Action ParsedBlock := do
  let opening ← current
  descend
  advance
  enterBlock
  let found ← attempt (statements inner)
  leaveBlock
  ascend
  let body ← resume found
  let closing ← current
  return ⟨⟨opening, opening.span.cover closing.span⟩, body⟩

/-- All statements up to the end of the source. -/
def program (inner : Inner) : Action ParsedProgram :=
  ⟨fun r => (.ok ⟨(untilEnd inner [] r).1⟩, (untilEnd inner [] r).2), window_untilEnd_le inner []⟩

end Action

/-! ### Levels -/

namespace Inner

/-- Expressions and blocks within so many levels. -/
def levels : Nat → Inner
  | 0 => ⟨fun _ => .tooDeep, .tooDeep⟩
  | n + 1 => ⟨Action.expression (levels n), Action.block (levels n)⟩

/-- Expressions and blocks that are inside no other.  The counter ends the
recursion: from the last of its levels nothing can descend. -/
def outermost : Inner := levels (maxNesting + 1)

end Inner

/-! ### Calls -/

/-- What the user of a reader can ask it to do, whatever token is current. -/
inductive Call where
  | advance
  | expect (kind : Kind)
  | program
  | expression (p : Precedence)
  | leading (form : Lead)
  | linked (form : Link) (p : Precedence) (left : ParsedExpr)
  | statement
  | formed (form : StatementForm)
  | expressionStatement
  | block

namespace Call

/-- What a call gives, if it succeeds. -/
abbrev Result : Call → Type
  | advance => Unit
  | expect _ => Token
  | program => ParsedProgram
  | expression _ | leading _ | linked .. => ParsedExpr
  | statement => Option ParsedStmt
  | formed _ | expressionStatement => ParsedStmt
  | block => ParsedBlock

/-- What a call does. -/
def action : (c : Call) → Action c.Result
  | advance => Action.advance
  | expect kind => Action.expect kind
  | program => Action.program .outermost
  | expression p => Inner.outermost.expression p
  | leading form => Action.leading .outermost form
  | linked form p left => Action.linked .outermost p left form
  | statement => Action.statement .outermost
  | formed form => Action.formed .outermost form
  | expressionStatement => Action.expressionStatement .outermost
  | block => Inner.outermost.block

end Call

/-- The reader behind some calls, whether they succeed or fail. -/
def afterCalls (r : Reader) (calls : List Call) : Reader :=
  calls.foldl (fun r c => (c.action.run r).2) r

end Reader

end LetFn
