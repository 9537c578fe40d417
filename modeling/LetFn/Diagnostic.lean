/-
LetFn/Diagnostic.lean

Diagnostics: what can be wrong with a source, and where.  A cause carries
what its message speaks of; the wording is in `Cause.message` and
`Cause.tip?` alone.
-/
import LetFn.Text.Numeral
import LetFn.Text.Quoted
import LetFn.Token

namespace LetFn

/-- What is wrong. -/
inductive Cause where
  /-- A token of one kind has to follow, and one of another kind does. -/
  | unexpectedToken (expected received : Kind)
  /-- No expression can begin with a token of this kind. -/
  | noExpression (kind : Kind) (text : String)
  /-- The text of a number names no integer within the limits. -/
  | badNumber (text : String)
  /-- Expressions and blocks are nested beyond the limit. -/
  | tooDeep (limit : Nat)
  deriving DecidableEq, Repr

/-- A kind in words: its spelling, if it has one. -/
def Kind.described (k : Kind) : String :=
  match k.spelling? with
  | some s => "`" ++ s ++ "`"
  | none =>
    match k with
    | .eof => "the end of input"
    | .illegal => "a valid character"
    | .number => "a number"
    | _ => "an identifier"

namespace Cause

/-- The name of a cause. -/
def name : Cause → String
  | unexpectedToken .. => "UnexpectedToken"
  | noExpression .. => "NoPrefixParseFn"
  | badNumber .. => "NumberParseError"
  | tooDeep .. => "NestingTooDeep"

/-- What is wrong, in words. -/
def message : Cause → String
  | unexpectedToken expected received =>
    "expected next token to be " ++ expected.name ++ ", got " ++ received.name ++ " instead"
  | noExpression kind _ => "no prefix parse function for " ++ kind.name ++ " found"
  | badNumber text => "could not parse " ++ Text.quoted text ++ " as integer"
  | tooDeep limit => "expression nested more than " ++ Text.decimal limit ++ " levels deep"

/-- How it may be mended, in words. -/
def tip? : Cause → Option String
  | unexpectedToken expected received =>
    if received = .eof ∧ (expected = .closeParen ∨ expected = .closeCurly) then
      some "input ended early, is a closing delimiter missing?"
    else some ("insert " ++ expected.described ++ " here")
  | noExpression .eof _ => none
  | noExpression .illegal text => some ("`" ++ text ++ "` is not a valid character")
  | noExpression _ text => some ("`" ++ text ++ "` cannot start an expression")
  | badNumber text => some ("Invalid number: `" ++ text ++ "`, is it above the integer limit?")
  | tooDeep _ => some "split the expression up with `let` bindings"

end Cause

/-- A cause, and the place to which it belongs. -/
structure Diagnostic where
  cause : Cause
  position : Position
  deriving DecidableEq, Repr

/-- What is wrong, in words. -/
def Diagnostic.message (d : Diagnostic) : String := d.cause.message

end LetFn
