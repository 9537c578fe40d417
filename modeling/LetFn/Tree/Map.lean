/-
LetFn/Tree/Map.lean

Changing the annotations of a tree, node by node.  `bare` forgets them all:
two trees are alike, wherever they come from, when they have the same bare
tree.
-/
import LetFn.Tree

namespace LetFn

variable {α β : Type}

/-- Changes the annotation of a name. -/
def Name.map (f : α → β) (name : Name α) : Name β := ⟨f name.origin, name.text⟩

mutual

/-- Changes every annotation of an expression. -/
def Expr.map (f : α → β) : Expr α → Expr β
  | .identifier name => .identifier (name.map f)
  | .integer origin value => .integer (f origin) value
  | .boolean origin value => .boolean (f origin) value
  | .unary origin operator operand => .unary (f origin) operator (operand.map f)
  | .binary origin left operator right => .binary (f origin) (left.map f) operator (right.map f)
  | .conditional origin condition consequence alternative =>
    .conditional (f origin) (condition.map f) (consequence.map f) (Block.mapOption f alternative)
  | .function origin parameters body =>
    .function (f origin) (parameters.map (Name.map f)) (body.map f)
  | .call origin callee arguments => .call (f origin) (callee.map f) (Expr.mapEach f arguments)

/-- Changes every annotation of some expressions. -/
def Expr.mapEach (f : α → β) : List (Expr α) → List (Expr β)
  | [] => []
  | e :: later => e.map f :: Expr.mapEach f later

/-- Changes every annotation of a block. -/
def Block.map (f : α → β) : Block α → Block β
  | ⟨origin, body⟩ => ⟨f origin, Stmt.mapEach f body⟩

/-- Changes every annotation of a block, if there is one. -/
def Block.mapOption (f : α → β) : Option (Block α) → Option (Block β)
  | none => none
  | some body => some (body.map f)

/-- Changes every annotation of a statement. -/
def Stmt.map (f : α → β) : Stmt α → Stmt β
  | .binding origin name value => .binding (f origin) (name.map f) (value.map f)
  | .returning origin value => .returning (f origin) (value.map f)
  | .expression origin value => .expression (f origin) (value.map f)
  | .block body => .block (body.map f)

/-- Changes every annotation of some statements. -/
def Stmt.mapEach (f : α → β) : List (Stmt α) → List (Stmt β)
  | [] => []
  | s :: later => s.map f :: Stmt.mapEach f later

end

theorem Expr.mapEach_eq_map (f : α → β) (es : List (Expr α)) :
    Expr.mapEach f es = es.map (Expr.map f) := by
  induction es with
  | nil => rfl
  | cons e es ih => rw [Expr.mapEach, ih, List.map_cons]

theorem Stmt.mapEach_eq_map (f : α → β) (ss : List (Stmt α)) :
    Stmt.mapEach f ss = ss.map (Stmt.map f) := by
  induction ss with
  | nil => rfl
  | cons s ss ih => rw [Stmt.mapEach, ih, List.map_cons]

/-- Changes every annotation of a program. -/
def Program.map (f : α → β) (p : Program α) : Program β := ⟨p.statements.map (Stmt.map f)⟩

/-- The program without its annotations. -/
def Program.bare (p : Program α) : Program Unit := p.map fun _ => ()

/-- The expression without its annotations. -/
def Expr.bare (e : Expr α) : Expr Unit := e.map fun _ => ()

/-- The block without its annotations. -/
def Block.bare (b : Block α) : Block Unit := b.map fun _ => ()

/-- The statement without its annotations. -/
def Stmt.bare (s : Stmt α) : Stmt Unit := s.map fun _ => ()

end LetFn
