/-
LetFn/Grammar.lean

What the kind of one token decides: with which statement or expression it
begins, how it continues an expression, and how tightly it then binds.
-/
import LetFn.Token

namespace LetFn

/-! ### Precedence -/

/-- How tightly an operator binds, from the loosest to the tightest. -/
inductive Precedence where
  | lowest
  | equality
  | comparison
  | sum
  | product
  | unary
  | call
  deriving DecidableEq, Repr

namespace Precedence

/-- The place of a precedence in the order. -/
def rank : Precedence → Nat
  | lowest => 0
  | equality => 1
  | comparison => 2
  | sum => 3
  | product => 4
  | unary => 5
  | call => 6

instance : Ord Precedence := ⟨fun p q => compare p.rank q.rank⟩

instance : LT Precedence := ⟨fun p q => p.rank < q.rank⟩

instance (p q : Precedence) : Decidable (p < q) := inferInstanceAs (Decidable (p.rank < q.rank))

theorem lt_iff {p q : Precedence} : p < q ↔ p.rank < q.rank := Iff.rfl

/-- Nothing binds looser than `lowest`. -/
theorem not_lt_lowest (p : Precedence) : ¬ p < lowest := Nat.not_lt_zero _

end Precedence

/-! ### Forms -/

/-- What an expression can be that begins with some token. -/
inductive Lead where
  | identifier
  | integer
  | boolean
  | unary
  | group
  | conditional
  | function
  deriving DecidableEq, Repr

/-- How a token can continue the expression before it. -/
inductive Link where
  | binary
  | call
  deriving DecidableEq, Repr

/-- What a statement is that begins with a token of its own. -/
inductive StatementForm where
  | binding
  | returning
  | block
  deriving DecidableEq, Repr

namespace Kind

/-- What an expression is that begins with a token of this kind. -/
def lead? : Kind → Option Lead
  | identifier => some .identifier
  | number => some .integer
  | kwTrue | kwFalse => some .boolean
  | not | dash => some .unary
  | openParen => some .group
  | kwIf => some .conditional
  | kwFn => some .function
  | _ => none

/-- How a token of this kind continues an expression. -/
def link? : Kind → Option Link
  | equals | notEquals | less | greater | plus | dash | star | slash => some .binary
  | openParen => some .call
  | _ => none

/-- How tightly a token of this kind binds what stands before it. -/
def precedence : Kind → Precedence
  | equals | notEquals => .equality
  | less | greater => .comparison
  | plus | dash => .sum
  | star | slash => .product
  | openParen => .call
  | _ => .lowest

/-- What a statement is that begins with a token of this kind; every other
token begins a statement that is an expression. -/
def statementForm? : Kind → Option StatementForm
  | kwLet => some .binding
  | kwReturn => some .returning
  | openCurly => some .block
  | _ => none

/-- A token links exactly if it binds at all. -/
theorem isSome_link?_iff (k : Kind) : k.link?.isSome ↔ Precedence.lowest < k.precedence := by
  cases k <;> decide

/-- Only an opening bracket makes a call. -/
theorem link?_eq_call_iff {k : Kind} : k.link? = some .call ↔ k = openParen := by
  cases k <;> decide

end Kind

end LetFn
