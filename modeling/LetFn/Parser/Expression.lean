/-
LetFn/Parser/Expression.lean

Reading expressions.  An expression is a leading part, which the kind of its
first token decides, followed by any number of links: binary operators with
their right operands, and argument lists.  A link is taken as long as it
binds tighter than the expression asks for, and the right operand of an
operator asks for its precedence, so that operators of one precedence group
to the left.

Expressions and blocks within an expression are one level deeper.  How they
are read is a parameter here (`Nested`); `LetFn.Parser.Nesting` ties the
knot.

Every parser here starts on the first token of what it reads, or on the
token that links it to what stands before, and stops on the last one.
-/
import LetFn.Grammar
import LetFn.Parser.Basic
import LetFn.Text.Numeral
import LetFn.Tree

namespace LetFn

/-- How expressions and blocks are read one level deeper. -/
structure Nested where
  /-- Reads an expression, with the links that bind tighter than given. -/
  expression : Precedence → Parser ParsedExpr
  block : Parser ParsedBlock

namespace Parser

/-! ### Leading parts that are one token -/

/-- The current token as a name. -/
def identifier : Parser ParsedExpr := do
  let token ← current
  return .identifier ⟨.ofToken token, token.text⟩

/-- The current token as an integer. -/
def integer : Parser ParsedExpr := do
  let token ← current
  match Text.integer? token.text with
  | some value => return .integer (.ofToken token) value
  | none => fail ⟨.badNumber token.text, token.span.start⟩

/-- The current token as a truth value: true for the keyword `true` alone. -/
def boolean : Parser ParsedExpr := do
  let token ← current
  return .boolean (.ofToken token) (token.kind = .kwTrue)

/-! ### Leading parts with expressions in them -/

/-- An operator and its operand. -/
def unary (inner : Nested) : Parser ParsedExpr := do
  let operator ← current
  advance
  let operand ← inner.expression .unary
  return .unary ⟨operator, operator.span.cover operand.origin.span⟩ operator.text operand

/-- An expression in brackets; the brackets leave no trace. -/
def group (inner : Nested) : Parser ParsedExpr := do
  advance
  let e ← inner.expression .lowest
  let _ ← expect .closeParen
  return e

/-- The second branch of a conditional, if `else` follows. -/
def alternative (inner : Nested) : Parser (Option ParsedBlock) := do
  let next ← peek
  if next.kind = .kwElse then
    advance
    let _ ← expect .openCurly
    let body ← inner.block
    return some body
  else return none

/-- A conditional, with one branch or two. -/
def conditional (inner : Nested) : Parser ParsedExpr := do
  let keyword ← current
  let _ ← expect .openParen
  advance
  let condition ← inner.expression .lowest
  let _ ← expect .closeParen
  let _ ← expect .openCurly
  let consequence ← inner.block
  let otherwise ← alternative inner
  let last ← current
  return .conditional ⟨keyword, keyword.span.cover last.span⟩ condition consequence otherwise

/-- Items between brackets, with commas between them, from the opening
bracket on. -/
def listed {α : Type} (item : Parser α) : Parser (List α) := do
  let next ← peek
  if next.kind = .closeParen then
    advance
    return []
  else
    let items ← separated .comma (by decide) item
    let _ ← expect .closeParen
    return items

/-- The name that has to follow the current token. -/
def parameter : Parser (Name Origin) := do
  let token ← expect .identifier
  return ⟨.ofToken token, token.text⟩

/-- A function: its parameters and its body. -/
def function (inner : Nested) : Parser ParsedExpr := do
  let keyword ← current
  let _ ← expect .openParen
  let names ← listed parameter
  let _ ← expect .openCurly
  let body ← inner.block
  let last ← current
  return .function ⟨keyword, keyword.span.cover last.span⟩ names body

/-- A leading part of the given form. -/
def leading (inner : Nested) : Lead → Parser ParsedExpr
  | .identifier => identifier
  | .integer => integer
  | .boolean => boolean
  | .unary => unary inner
  | .group => group inner
  | .conditional => conditional inner
  | .function => function inner

/-! ### Links -/

/-- A binary operator and its right operand, which takes the links that bind
tighter than `p`. -/
def binary (inner : Nested) (p : Precedence) (left : ParsedExpr) : Parser ParsedExpr := do
  let operator ← current
  advance
  let right ← inner.expression p
  return .binary ⟨operator, left.origin.span.cover right.origin.span⟩ left operator.text right

/-- The expression that has to follow the current token. -/
def argument (inner : Nested) : Parser ParsedExpr := do
  advance
  inner.expression .lowest

/-- The argument list that makes `callee` a call. -/
def call (inner : Nested) (callee : ParsedExpr) : Parser ParsedExpr := do
  let opening ← current
  let arguments ← listed (argument inner)
  let last ← current
  return .call ⟨opening, callee.origin.span.cover last.span⟩ callee arguments

/-- A link of the given form; a binary operator is read at the precedence `p`. -/
def linked (inner : Nested) (p : Precedence) (left : ParsedExpr) : Link → Parser ParsedExpr
  | .binary => binary inner p left
  | .call => call inner left

/-- The link that the current token makes, if it makes one. -/
def link (inner : Nested) (left : ParsedExpr) : Parser ParsedExpr := do
  let token ← current
  match token.kind.link? with
  | some form => linked inner token.kind.precedence left form
  | none => return left

/-! ### Expressions -/

/-- The leading part of an expression at the current token. -/
def lead (inner : Nested) : Parser ParsedExpr := do
  let token ← current
  match token.kind.lead? with
  | some form => leading inner form
  | none => fail ⟨.noExpression token.kind token.text, token.span.start⟩

/-- The links behind `left` that bind tighter than `p`. -/
def links (inner : Nested) (p : Precedence) (left : ParsedExpr) : Parser ParsedExpr :=
  foldPeek (fun kind => p < kind.precedence)
    (decide_eq_false (Precedence.not_lt_lowest p)) (link inner) left

/-- An expression, with the links that bind tighter than `p`. -/
def expression (inner : Nested) (p : Precedence) : Parser ParsedExpr := do
  let left ← lead inner
  links inner p left

end Parser

end LetFn
