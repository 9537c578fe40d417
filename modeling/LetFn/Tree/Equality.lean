/-
LetFn/Tree/Equality.lean

Equality of trees can be decided, annotations included: two trees are
compared node by node, and `alike` says yes for equal trees and no others
(`Expr.alike_iff` and its companions for blocks and statements).
-/
import LetFn.Tree

namespace LetFn

variable {α : Type} [DecidableEq α]

mutual

/-- Are two expressions equal, node by node? -/
def Expr.alike : Expr α → Expr α → Bool
  | .identifier m, .identifier n => m = n
  | .integer o m, .integer p n => o = p && m = n
  | .boolean o b, .boolean p c => o = p && b = c
  | .unary o op e, .unary p oq f => o = p && op = oq && e.alike f
  | .binary o l op r, .binary p m oq s => o = p && l.alike m && op = oq && r.alike s
  | .conditional o c t e, .conditional p d u f =>
    o = p && c.alike d && t.alike u && Block.alikeOption e f
  | .function o xs b, .function p ys c => o = p && xs = ys && b.alike c
  | .call o f es, .call p g fs => o = p && f.alike g && Expr.alikeEach es fs
  | _, _ => false

/-- Are two lists of expressions equal? -/
def Expr.alikeEach : List (Expr α) → List (Expr α) → Bool
  | [], [] => true
  | e :: es, f :: fs => e.alike f && Expr.alikeEach es fs
  | _, _ => false

/-- Are two blocks equal? -/
def Block.alike : Block α → Block α → Bool
  | ⟨o, ss⟩, ⟨p, ts⟩ => o = p && Stmt.alikeEach ss ts

/-- Are two blocks equal, or both absent? -/
def Block.alikeOption : Option (Block α) → Option (Block α) → Bool
  | none, none => true
  | some b, some c => b.alike c
  | _, _ => false

/-- Are two statements equal, node by node? -/
def Stmt.alike : Stmt α → Stmt α → Bool
  | .binding o m e, .binding p n f => o = p && m = n && e.alike f
  | .returning o e, .returning p f => o = p && e.alike f
  | .expression o e, .expression p f => o = p && e.alike f
  | .block b, .block c => b.alike c
  | _, _ => false

/-- Are two lists of statements equal? -/
def Stmt.alikeEach : List (Stmt α) → List (Stmt α) → Bool
  | [], [] => true
  | s :: ss, t :: ts => s.alike t && Stmt.alikeEach ss ts
  | _, _ => false

end

mutual

theorem Expr.alike_iff (e f : Expr α) : e.alike f ↔ e = f := by
  cases e <;> cases f <;>
    simp [Expr.alike, Expr.alike_iff, Expr.alikeEach_iff, Block.alike_iff, Block.alikeOption_iff,
      and_assoc]
termination_by structural e

theorem Expr.alikeEach_iff (es fs : List (Expr α)) : Expr.alikeEach es fs ↔ es = fs := by
  cases es <;> cases fs <;> simp [Expr.alikeEach, Expr.alike_iff, Expr.alikeEach_iff]
termination_by structural es

theorem Block.alike_iff (b c : Block α) : b.alike c ↔ b = c := by
  cases b; cases c; simp [Block.alike, Stmt.alikeEach_iff]
termination_by structural b

theorem Block.alikeOption_iff (b c : Option (Block α)) : Block.alikeOption b c ↔ b = c := by
  cases b <;> cases c <;> simp [Block.alikeOption, Block.alike_iff]
termination_by structural b

theorem Stmt.alike_iff (s t : Stmt α) : s.alike t ↔ s = t := by
  cases s <;> cases t <;> simp [Stmt.alike, Expr.alike_iff, Block.alike_iff, and_assoc]
termination_by structural s

theorem Stmt.alikeEach_iff (ss ts : List (Stmt α)) : Stmt.alikeEach ss ts ↔ ss = ts := by
  cases ss <;> cases ts <;> simp [Stmt.alikeEach, Stmt.alike_iff, Stmt.alikeEach_iff]
termination_by structural ss

end

instance : DecidableEq (Expr α) := fun e f => decidable_of_iff _ (Expr.alike_iff e f)

instance : DecidableEq (Block α) := fun b c => decidable_of_iff _ (Block.alike_iff b c)

instance : DecidableEq (Stmt α) := fun s t => decidable_of_iff _ (Stmt.alike_iff s t)

instance : DecidableEq (Program α) := fun p q =>
  decidable_of_iff (p.statements = q.statements) (by cases p; cases q; simp)

end LetFn
