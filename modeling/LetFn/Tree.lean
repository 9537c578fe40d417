/-
LetFn/Tree.lean

Syntax trees.  A program is a list of statements; a statement binds a name,
returns a value, evaluates an expression or is a block; and expressions and
blocks contain each other, because the branches of a conditional and the
body of a function are blocks.

Brackets that only group leave no trace: `(a + b)` is the tree of `a + b`.

Every node carries an annotation of type `α`.  A parsed tree is annotated
with where each node comes from (`Origin`), and a bare tree with nothing
(`Unit`); `map` in `LetFn.Tree.Map` goes from one to the other.
-/
import LetFn.Token

namespace LetFn

/-- Where a node of a parsed tree comes from. -/
structure Origin where
  /-- The token that made the node: the operator of an operation, the
  opening bracket of a call or block, and otherwise the first token. -/
  token : Token
  /-- The stretch of the source that the node covers. -/
  span : Span
  deriving DecidableEq, Repr

/-- The origin of a node that is one token. -/
def Origin.ofToken (t : Token) : Origin := ⟨t, t.span⟩

/-- A name, where it is used, bound or made a parameter. -/
structure Name (α : Type) where
  origin : α
  text : String
  deriving DecidableEq, Repr

mutual

/-- An expression. -/
inductive Expr (α : Type) where
  | identifier (name : Name α)
  | integer (origin : α) (value : Int)
  | boolean (origin : α) (value : Bool)
  | unary (origin : α) (operator : String) (operand : Expr α)
  | binary (origin : α) (left : Expr α) (operator : String) (right : Expr α)
  | conditional (origin : α) (condition : Expr α) (consequence : Block α)
      (alternative : Option (Block α))
  | function (origin : α) (parameters : List (Name α)) (body : Block α)
  | call (origin : α) (callee : Expr α) (arguments : List (Expr α))

/-- A sequence of statements between braces. -/
structure Block (α : Type) where
  origin : α
  body : List (Stmt α)

/-- A statement. -/
inductive Stmt (α : Type) where
  | binding (origin : α) (name : Name α) (value : Expr α)
  | returning (origin : α) (value : Expr α)
  | expression (origin : α) (value : Expr α)
  | block (body : Block α)

end

/-- The annotation of an expression's own node. -/
def Expr.origin {α : Type} : Expr α → α
  | .identifier name => name.origin
  | .integer origin _ | .boolean origin _ | .unary origin _ _ | .binary origin _ _ _
  | .conditional origin _ _ _ | .function origin _ _ | .call origin _ _ => origin

/-- The annotation of a statement's own node. -/
def Stmt.origin {α : Type} : Stmt α → α
  | .binding origin _ _ | .returning origin _ | .expression origin _ => origin
  | .block body => body.origin

/-- The statements of a whole source. -/
structure Program (α : Type) where
  statements : List (Stmt α) := []

/-- An expression whose nodes say where they come from. -/
abbrev ParsedExpr := Expr Origin

/-- A block whose nodes say where they come from. -/
abbrev ParsedBlock := Block Origin

/-- A statement whose nodes say where they come from. -/
abbrev ParsedStmt := Stmt Origin

/-- A program whose nodes say where they come from. -/
abbrev ParsedProgram := Program Origin

end LetFn
