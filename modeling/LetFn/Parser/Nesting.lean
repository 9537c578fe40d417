/-
LetFn/Parser/Nesting.lean

Nesting.  Expressions and blocks contain each other, and each of them that
is inside another one is a level deeper.  There is a limit to the levels;
beyond it an expression or a block is not read, but fails at its first
token.

`Nested.within n` reads with `n` levels to spare, and is defined by
recursion on `n`.  What the outermost parsers are given is
`Nested.outermost`.
-/
import LetFn.Parser.Statement

namespace LetFn

/-- How many levels of expressions and blocks there may be. -/
def maxNesting : Nat := 128

namespace Nested

/-- Fails at the current token, because no level is left. -/
def tooDeep {α : Type} : Parser α := do
  let token ← Parser.current
  Parser.fail ⟨.tooDeep maxNesting, token.span.start⟩

/-- Reads expressions and blocks with so many levels to spare. -/
def within : Nat → Nested
  | 0 => ⟨fun _ => tooDeep, tooDeep⟩
  | n + 1 => ⟨Parser.expression (within n), Parser.block (within n)⟩

/-- Reads expressions and blocks that are inside no other. -/
def outermost : Nested := within maxNesting

end Nested

end LetFn
