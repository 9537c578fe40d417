/-
LetFn/Proofs/Canonical.lean

Trees whose canonical text means something, and the levels of nesting that
this text needs.

A tree is well formed if its names are names, its integers can be written as
numerals without a sign, and its operators are operators.  These are the
trees that can be read from a source (`LetFn.Proofs.WellFormed`), and
the ones that their canonical text can be read back to
(`LetFn.Proofs.RoundTrip`).

The canonical text puts brackets around each operation, and each of them is
a level that the tree itself does not show.
-/
import LetFn.Token.Lexeme
import LetFn.Tree.Map
import LetFn.Tree.Render

namespace LetFn

variable {α β : Type}

/-! ### Well-formed trees -/

/-- Is the text a word that is not a keyword? -/
def isName (text : String) : Bool :=
  match text.toList with
  | [] => false
  | c :: word => isWordStart c && word.all isWordPart && (Kind.keyword? text).isNone

theorem isName_iff {text : String} : isName text ↔ ∃ c word, text.toList = c :: word ∧
    isWordStart c ∧ word.all isWordPart ∧ Kind.keyword? text = none := by
  unfold isName
  constructor
  · intro h
    split at h
    · cases h
    · next c word hword =>
      simp only [Bool.and_eq_true, Option.isNone_iff_eq_none] at h
      exact ⟨c, word, hword, h.1.1, h.1.2, h.2⟩
  · rintro ⟨c, word, hword, hc, hall, hnone⟩
    simp [hword, hc, hall, hnone]

/-- The operators with one operand. -/
def unarySpellings : List String := ["!", "-"]

/-- The operators with two operands. -/
def binarySpellings : List String := ["==", "!=", "<", ">", "+", "-", "*", "/"]

mutual

/-- Has the expression only proper names, integers and operators in it? -/
def Expr.wellFormed : Expr α → Bool
  | .identifier name => isName name.text
  | .integer _ value => 0 ≤ value && value ≤ Text.maxInteger
  | .boolean .. => true
  | .unary _ operator operand => unarySpellings.contains operator && operand.wellFormed
  | .binary _ left operator right =>
    binarySpellings.contains operator && left.wellFormed && right.wellFormed
  | .conditional _ condition consequence alternative =>
    condition.wellFormed && consequence.wellFormed && Block.wellFormedElse alternative
  | .function _ parameters body => parameters.all (isName ·.text) && body.wellFormed
  | .call _ callee arguments => callee.wellFormed && Expr.wellFormedEach arguments

/-- Are the expressions well formed? -/
def Expr.wellFormedEach : List (Expr α) → Bool
  | [] => true
  | e :: later => e.wellFormed && Expr.wellFormedEach later

/-- Are the statements of the block well formed? -/
def Block.wellFormed : Block α → Bool
  | ⟨_, body⟩ => Stmt.wellFormedEach body

/-- Is the second branch of a conditional well formed, if there is one? -/
def Block.wellFormedElse : Option (Block α) → Bool
  | none => true
  | some body => body.wellFormed

/-- Has the statement only proper names, integers and operators in it? -/
def Stmt.wellFormed : Stmt α → Bool
  | .binding _ name value => isName name.text && value.wellFormed
  | .returning _ value => value.wellFormed
  | .expression _ value => value.wellFormed
  | .block body => body.wellFormed

/-- Are the statements well formed? -/
def Stmt.wellFormedEach : List (Stmt α) → Bool
  | [] => true
  | s :: later => s.wellFormed && Stmt.wellFormedEach later

end

theorem Stmt.wellFormedEach_eq_all (ss : List (Stmt α)) :
    Stmt.wellFormedEach ss = ss.all Stmt.wellFormed := by
  induction ss with
  | nil => rfl
  | cons s ss ih => rw [Stmt.wellFormedEach, ih, List.all_cons]

/-- Are all statements of the program well formed? -/
def Program.wellFormed (p : Program α) : Bool := p.statements.all Stmt.wellFormed

/-! ### Levels of nesting -/

mutual

/-- How many levels the canonical text of an expression needs. -/
def Expr.levels : Expr α → Nat
  | .identifier _ | .integer .. | .boolean .. => 1
  | .unary _ _ operand => 2 + operand.levels
  | .binary _ left _ right => max (1 + left.levels) (2 + right.levels)
  | .conditional _ condition consequence alternative =>
    1 + max condition.levels (max consequence.levels (Block.levelsElse alternative))
  | .function _ _ body => 1 + body.levels
  | .call _ callee arguments => max callee.levels (Expr.levelsEach arguments)

/-- How many levels the arguments of a call need; each is one level deeper. -/
def Expr.levelsEach : List (Expr α) → Nat
  | [] => 0
  | e :: later => max (1 + e.levels) (Expr.levelsEach later)

/-- How many levels a block needs. -/
def Block.levels : Block α → Nat
  | ⟨_, body⟩ => 1 + Stmt.levelsEach body

/-- How many levels the second branch of a conditional needs, if there is one. -/
def Block.levelsElse : Option (Block α) → Nat
  | none => 0
  | some body => body.levels

/-- How many levels the canonical text of a statement needs. -/
def Stmt.levels : Stmt α → Nat
  | .binding _ _ value | .returning _ value | .expression _ value => value.levels
  | .block body => body.levels

/-- How many levels some statements need. -/
def Stmt.levelsEach : List (Stmt α) → Nat
  | [] => 0
  | s :: later => max s.levels (Stmt.levelsEach later)

end

/-- Some statements need as many levels as the one of them that needs most. -/
theorem Stmt.levelsEach_le_iff {ss : List (Stmt α)} {n : Nat} :
    Stmt.levelsEach ss ≤ n ↔ ∀ s ∈ ss, s.levels ≤ n := by
  induction ss with
  | nil => simp [Stmt.levelsEach]
  | cons s ss ih => rw [Stmt.levelsEach, Nat.max_le, ih, List.forall_mem_cons]

/-! ### What annotations do not matter for -/

mutual

theorem Expr.render_map (f : α → β) : ∀ e : Expr α, (e.map f).render = e.render
  | .identifier _ | .integer .. | .boolean .. => rfl
  | .unary _ _ r => by rw [Expr.map, Expr.render, Expr.render_map f r, Expr.render]
  | .binary _ l _ r => by
    rw [Expr.map, Expr.render, Expr.render_map f l, Expr.render_map f r, Expr.render]
  | .conditional _ c b e => by
    rw [Expr.map, Expr.render, Expr.render_map f c, Block.render_map f b, Block.renderElse_map f e,
      Expr.render]
  | .function _ xs b => by
    have hnames : (xs.map (Name.map f)).map Name.text = xs.map Name.text := by
      rw [List.map_map]
      rfl
    rw [Expr.map, Expr.render, hnames, Block.render_map f b, Expr.render]
  | .call _ g es => by
    rw [Expr.map, Expr.render, Expr.render_map f g, Expr.renderEach_mapEach f es, Expr.render]

theorem Expr.renderEach_mapEach (f : α → β) :
    ∀ es : List (Expr α), Expr.renderEach (Expr.mapEach f es) = Expr.renderEach es
  | [] => rfl
  | e :: es => by
    rw [Expr.mapEach, Expr.renderEach, Expr.render_map f e, Expr.renderEach_mapEach f es,
      Expr.renderEach]

theorem Block.render_map (f : α → β) : ∀ b : Block α, (b.map f).render = b.render
  | ⟨_, ss⟩ => by rw [Block.map, Block.render, Stmt.renderEach_mapEach f ss, Block.render]

theorem Block.renderElse_map (f : α → β) :
    ∀ b : Option (Block α), Block.renderElse (Block.mapOption f b) = Block.renderElse b
  | none => rfl
  | some b => by rw [Block.mapOption, Block.renderElse, Block.render_map f b, Block.renderElse]

theorem Stmt.render_map (f : α → β) : ∀ s : Stmt α, (s.map f).render = s.render
  | .binding _ name e => by rw [Stmt.map, Stmt.render, Expr.render_map f e, Stmt.render]; rfl
  | .returning _ e => by rw [Stmt.map, Stmt.render, Expr.render_map f e, Stmt.render]
  | .expression _ e => by rw [Stmt.map, Stmt.render, Expr.render_map f e, Stmt.render]
  | .block b => by rw [Stmt.map, Stmt.render, Block.render_map f b, Stmt.render]

theorem Stmt.renderEach_mapEach (f : α → β) :
    ∀ ss : List (Stmt α), Stmt.renderEach (Stmt.mapEach f ss) = Stmt.renderEach ss
  | [] => rfl
  | s :: ss => by
    rw [Stmt.mapEach, Stmt.renderEach, Stmt.render_map f s, Stmt.renderEach_mapEach f ss,
      Stmt.renderEach]

end

/-- The canonical text of a program says nothing about where it comes from. -/
theorem Program.render_map (f : α → β) (p : Program α) : (p.map f).render = p.render := by
  rw [Program.map, Program.render, List.map_map, Program.render]
  refine congrArg _ (List.map_congr_left fun s _ => ?_)
  exact Stmt.render_map f s

theorem Program.render_bare (p : Program α) : p.bare.render = p.render :=
  Program.render_map _ p

end LetFn
