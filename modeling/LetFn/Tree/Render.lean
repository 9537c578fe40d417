/-
LetFn/Tree/Render.lean

The canonical text of a tree.  Every operation stands in brackets of its
own and every statement but a block ends in a semicolon, so that the text
can be read in one way only: no precedence has to be known, and no two
neighbouring statements run together.
-/
import LetFn.Text.Numeral
import LetFn.Tree

namespace LetFn

variable {α : Type}

mutual

/-- The canonical text of an expression. -/
def Expr.render : Expr α → String
  | .identifier name => name.text
  | .integer _ value => Text.decimal value
  | .boolean _ value => if value then "true" else "false"
  | .unary _ operator operand => "(" ++ operator ++ operand.render ++ ")"
  | .binary _ left operator right =>
    "(" ++ left.render ++ " " ++ operator ++ " " ++ right.render ++ ")"
  | .conditional _ condition consequence alternative =>
    "if (" ++ condition.render ++ ") " ++ consequence.render ++ Block.renderElse alternative
  | .function _ parameters body =>
    "fn(" ++ ", ".intercalate (parameters.map Name.text) ++ ") " ++ body.render
  | .call _ callee arguments =>
    callee.render ++ "(" ++ ", ".intercalate (Expr.renderEach arguments) ++ ")"

/-- The canonical texts of some expressions. -/
def Expr.renderEach : List (Expr α) → List String
  | [] => []
  | e :: later => e.render :: Expr.renderEach later

/-- The canonical text of a block: each statement with a space before it, between
braces. -/
def Block.render : Block α → String
  | ⟨_, body⟩ => "\x7b" ++ String.join ((Stmt.renderEach body).map (" " ++ ·)) ++ " \x7d"

/-- The canonical text of the second branch of a conditional, if there is one. -/
def Block.renderElse : Option (Block α) → String
  | none => ""
  | some body => " else " ++ body.render

/-- The canonical text of a statement. -/
def Stmt.render : Stmt α → String
  | .binding _ name value => "let " ++ name.text ++ " = " ++ value.render ++ ";"
  | .returning _ value => "return " ++ value.render ++ ";"
  | .expression _ value => value.render ++ ";"
  | .block body => body.render

/-- The canonical texts of some statements. -/
def Stmt.renderEach : List (Stmt α) → List String
  | [] => []
  | s :: later => s.render :: Stmt.renderEach later

end

theorem Expr.renderEach_eq_map (es : List (Expr α)) : Expr.renderEach es = es.map Expr.render := by
  induction es with
  | nil => rfl
  | cons e es ih => rw [Expr.renderEach, ih, List.map_cons]

/-- The canonical text of a program: its statements with a space between them. -/
def Program.render (p : Program α) : String :=
  " ".intercalate (p.statements.map Stmt.render)

end LetFn
