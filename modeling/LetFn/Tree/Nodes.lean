/-
LetFn/Tree/Nodes.lean

The nodes of a tree, one by one: what is said of each node of a program need
not be said by recursion again.  A node comes with all that is below it, and
before it in the list of nodes stand its ancestors and what is left of it.
-/
import LetFn.Tree.Equality

namespace LetFn

variable {α : Type}

/-- A node of a tree.  A name in the place of an expression is an expression. -/
inductive Node (α : Type) where
  /-- A name that is bound, or made a parameter. -/
  | name (name : Name α)
  | expr (e : Expr α)
  | block (b : Block α)
  /-- A statement; one that is a block is no node apart from its block. -/
  | stmt (s : Stmt α)
  deriving DecidableEq

mutual

/-- The nodes of an expression. -/
def Expr.nodes : Expr α → List (Node α)
  | .identifier name => [.expr (.identifier name)]
  | .integer origin value => [.expr (.integer origin value)]
  | .boolean origin value => [.expr (.boolean origin value)]
  | .unary origin operator operand => .expr (.unary origin operator operand) :: operand.nodes
  | .binary origin left operator right =>
    .expr (.binary origin left operator right) :: (left.nodes ++ right.nodes)
  | .conditional origin condition consequence alternative =>
    .expr (.conditional origin condition consequence alternative) ::
      (condition.nodes ++ (consequence.nodes ++ Block.nodesElse alternative))
  | .function origin parameters body =>
    .expr (.function origin parameters body) :: (parameters.map .name ++ body.nodes)
  | .call origin callee arguments =>
    .expr (.call origin callee arguments) :: (callee.nodes ++ Expr.nodesEach arguments)

/-- The nodes of some expressions. -/
def Expr.nodesEach : List (Expr α) → List (Node α)
  | [] => []
  | e :: later => e.nodes ++ Expr.nodesEach later

/-- The nodes of a block. -/
def Block.nodes : Block α → List (Node α)
  | ⟨origin, body⟩ => .block ⟨origin, body⟩ :: Stmt.nodesEach body

/-- The nodes of the second branch of a conditional, if there is one. -/
def Block.nodesElse : Option (Block α) → List (Node α)
  | none => []
  | some body => body.nodes

/-- The nodes of a statement. -/
def Stmt.nodes : Stmt α → List (Node α)
  | .binding origin name value => .stmt (.binding origin name value) :: .name name :: value.nodes
  | .returning origin value => .stmt (.returning origin value) :: value.nodes
  | .expression origin value => .stmt (.expression origin value) :: value.nodes
  | .block body => body.nodes

/-- The nodes of some statements. -/
def Stmt.nodesEach : List (Stmt α) → List (Node α)
  | [] => []
  | s :: later => s.nodes ++ Stmt.nodesEach later

end

theorem Expr.nodesEach_singleton (e : Expr α) : Expr.nodesEach [e] = e.nodes :=
  List.append_nil _

theorem Stmt.nodesEach_singleton (s : Stmt α) : Stmt.nodesEach [s] = s.nodes :=
  List.append_nil _

theorem Expr.nodesEach_append (es fs : List (Expr α)) :
    Expr.nodesEach (es ++ fs) = Expr.nodesEach es ++ Expr.nodesEach fs := by
  induction es with
  | nil => rfl
  | cons e es ih => rw [List.cons_append, Expr.nodesEach, ih, Expr.nodesEach, List.append_assoc]

theorem Stmt.nodesEach_append (ss ts : List (Stmt α)) :
    Stmt.nodesEach (ss ++ ts) = Stmt.nodesEach ss ++ Stmt.nodesEach ts := by
  induction ss with
  | nil => rfl
  | cons s ss ih => rw [List.cons_append, Stmt.nodesEach, ih, Stmt.nodesEach, List.append_assoc]

/-- The nodes of a program. -/
def Program.nodes (p : Program α) : List (Node α) := Stmt.nodesEach p.statements

end LetFn
