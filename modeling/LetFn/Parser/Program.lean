/-
LetFn/Parser/Program.lean

Reading whole programs.  There is always a program: statements that could
not be read are left out of it, and the errors say why.  A program without
errors is the whole source.

A session reads the same thing piece by piece, with any parser at any point,
and keeps the errors on the way.
-/
import LetFn.Parser.Nesting
import LetFn.Token.Scanner
import LetFn.Tree.Equality

namespace LetFn

/-! ### Programs -/

/-- The program that a stream holds, with all that happens while it is read
from the current token on. -/
def readProgram (s : TokenStream) : Outcome ParsedProgram :=
  let o := Parser.runStatements .outermost false s
  ⟨⟨o.value⟩, o.rest, o.events⟩

/-- A program, and what is wrong with its source. -/
structure Parsed where
  program : ParsedProgram
  errors : List Diagnostic
  deriving DecidableEq

/-- The program that a stream holds, with its errors. -/
def parse (s : TokenStream) : Parsed :=
  let o := readProgram s
  ⟨o.value, errorsOf o.events⟩

/-- The program that a list of tokens holds; `file` names the source if the
list has no end of its own. -/
def parseTokens (file : String) (tokens : List Token) : Parsed :=
  parse (.ofTokens file tokens)

/-- The program that a source holds. -/
def parseSource (file source : String) : Parsed :=
  parse (.ofSource file source)

/-! ### Sessions -/

/-- A stream that is being read, and the errors so far. -/
structure Session where
  stream : TokenStream
  errors : List Diagnostic := []

namespace Session

variable {α : Type}

/-- Runs a reader from where the session stands. -/
def read (s : Session) (run : TokenStream → Outcome α) : α × Session :=
  let o := run s.stream
  (o.value, ⟨o.rest, s.errors ++ errorsOf o.events⟩)

/-- Runs a parser from where the session stands.  The error of a parser that
fails is its result, and is not kept. -/
def call (s : Session) (p : Parser α) : Except Diagnostic α × Session := s.read p.run

/-- Reads the rest of the stream as a program. -/
def parseProgram (s : Session) : ParsedProgram × Session := s.read readProgram

end Session

end LetFn
