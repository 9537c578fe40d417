/-
LetFn/Proofs/Grammar.lean

The grammar, declaratively: which lists of tokens are expressions, blocks,
statements and programs, with which trees, and how many levels of nesting
they need.

Expressions are stratified, from equality as the loosest stratum to the
primary expressions.  A binary operator of a stratum has an expression of
that stratum on its left and one of the next tighter stratum on its right, so
that operators of one stratum group to the left.

A statement takes a semicolon that follows it.  An expression that ends a
statement without one is maximal: no token follows that could continue it.
That is why statements are told what kind of token follows (`next`).

With `lax`, any tokens may stand between the statements of a sequence.  The
grammar proper is the one without; the lax one describes what is left of a
text in which statements that cannot be read have been skipped.

Main statements: no expression or statement is empty, and what it can begin
with (`IsExpr.first`, `IsStmt.first`), and what binds tighter may stand where
something looser is asked for (`IsExpr.loosen`).
-/
import LetFn.Proofs.Reading

namespace LetFn

/-- The span from the first to the last of some tokens. -/
def Span.around : List Token → Span
  | [] => .null
  | first :: rest => first.span.cover (rest.getLastD first).span

/-- The span from the first to the last of the tokens that are covered. -/
theorem TokenStream.Covers.around {s t : TokenStream} {ts : List Token} (h : s.Covers ts t) :
    Span.around ts = s.current.span.cover t.current.span := by
  obtain ⟨rest, rfl⟩ : ∃ rest, ts = s.current :: rest := List.head?_eq_some_iff.mp h.head?
  have hlast := h.getLast?
  rw [List.getLast?_cons, Option.some.injEq] at hlast
  rw [Span.around, List.getLastD_eq_getLast?, hlast]

namespace Grammar

/-! ### Strata -/

/-- The strata of expressions, from the loosest to the tightest. -/
inductive Stratum where
  | equality
  | comparison
  | sum
  | product
  | unary
  | call
  | primary
  deriving DecidableEq, Repr

namespace Stratum

/-- The next tighter stratum. -/
def tighter : Stratum → Stratum
  | equality => comparison
  | comparison => sum
  | sum => product
  | product => unary
  | unary => call
  | call | primary => primary

/-- How tight a stratum is. -/
def rank : Stratum → Nat
  | equality => 0
  | comparison => 1
  | sum => 2
  | product => 3
  | unary => 4
  | call => 5
  | primary => 6

theorem rank_tighter {stratum : Stratum} (h : stratum ≠ primary) :
    stratum.tighter.rank = stratum.rank + 1 := by
  cases stratum <;> first | rfl | exact absurd rfl h

theorem rank_inj {stratum other : Stratum} (h : stratum.rank = other.rank) : stratum = other := by
  cases stratum <;> cases other <;> first | rfl | cases h

theorem rank_le_primary (stratum : Stratum) : stratum.rank ≤ primary.rank := by
  cases stratum <;> decide

/-- The binary operators of a stratum. -/
def operators : Stratum → List Kind
  | equality => [.equals, .notEquals]
  | comparison => [.less, .greater]
  | sum => [.plus, .dash]
  | product => [.star, .slash]
  | unary | call | primary => []

/-- The stratum of an expression that takes only what binds tighter than `p`. -/
def above : Precedence → Stratum
  | .lowest => equality
  | .equality => comparison
  | .comparison => sum
  | .sum => product
  | .product | .unary | .call => unary

/-- How tightly a token at most binds that may follow an expression of a
stratum: a tighter one would belong to the last operand. -/
def bound : Stratum → Precedence
  | equality => .equality
  | comparison => .comparison
  | sum => .sum
  | product => .product
  | unary => .unary
  | call | primary => .call

theorem bound_tighter (stratum : Stratum) : stratum.bound.rank ≤ stratum.tighter.bound.rank := by
  cases stratum <;> decide

theorem rank_above (p : Precedence) : (above p).rank = min p.rank 4 := by
  cases p <;> rfl

theorem rank_bound (stratum : Stratum) : stratum.bound.rank = min (stratum.rank + 1) 6 := by
  cases stratum <;> rfl

end Stratum

/-- The operators that can stand before an expression. -/
def unaryOperators : List Kind := [.not, .dash]

/-- The tokens that continue an expression: the binary operators, and the
bracket that opens the arguments of a call. -/
def continuing : List Kind :=
  [.equals, .notEquals, .less, .greater, .plus, .dash, .star, .slash, .openParen]

theorem mem_continuing_iff {k : Kind} : k ∈ continuing ↔ Precedence.lowest < k.precedence := by
  cases k <;> decide

/-- A token that links as a binary operator is one of some stratum. -/
theorem exists_operators {k : Kind} (h : k.link? = some .binary) :
    ∃ stratum : Stratum, k ∈ stratum.operators := by
  cases k
  case equals | notEquals => exact ⟨.equality, by decide⟩
  case less | greater => exact ⟨.comparison, by decide⟩
  case plus | dash => exact ⟨.sum, by decide⟩
  case star | slash => exact ⟨.product, by decide⟩
  all_goals cases h

/-- An operator of a stratum binds as tightly as anything may that follows an
expression of the stratum, and what stands on its right is of the next one. -/
theorem precedence_of_mem_operators {stratum : Stratum} {k : Kind} (h : k ∈ stratum.operators) :
    k.precedence = stratum.bound ∧ k.link? = some .binary ∧ stratum.rank < 4 ∧
      stratum.tighter = .above k.precedence := by
  cases stratum
  case unary | call | primary => cases h
  all_goals
    rcases List.mem_cons.mp h with h | h
    · subst h
      decide
    · obtain rfl := List.mem_singleton.mp h
      decide

/-! ### Lists -/

variable {α : Type}

/-- Items with a comma between two of them. -/
inductive IsItems (item : List Token → α → Prop) : List Token → List α → Prop
  | one {ts a} : item ts a → IsItems item ts [a]
  | more {ts us comma as a} : IsItems item ts as → comma.kind = .comma → item us a →
      IsItems item (ts ++ comma :: us) (as ++ [a])

/-- Items with a comma between two of them, or none at all. -/
inductive IsList (item : List Token → α → Prop) : List Token → List α → Prop
  | none : IsList item [] []
  | items {ts as} : IsItems item ts as → IsList item ts as

/-- A parameter is a name. -/
inductive IsParameter : List Token → Name Origin → Prop
  | name {t} : t.kind = .identifier → IsParameter [t] ⟨.ofToken t, t.text⟩

/-! ### Expressions, blocks and statements -/

/-- How a statement ends that ends with an expression: with the semicolon
that follows, or before a token that neither is one nor continues the
expression. -/
inductive IsEnd (next : Kind) : List Token → Prop
  | semicolon {t} : t.kind = .semicolon → IsEnd next [t]
  | none : next ≠ .semicolon → next ∉ continuing → IsEnd next []

mutual

/-- The tokens are an expression of a stratum, with a tree, and need so many
levels of nesting. -/
inductive IsExpr (lax : Bool) : Stratum → List Token → ParsedExpr → Nat → Prop
  | tighter {stratum ts e n} :
      IsExpr lax stratum.tighter ts e n → IsExpr lax stratum ts e n
  -- the right operand is a level deeper; the left one has been read on the same level
  | binary {stratum ts us operator l r m n} :
      IsExpr lax stratum ts l m → operator.kind ∈ stratum.operators →
      IsExpr lax stratum.tighter us r n →
      IsExpr lax stratum (ts ++ operator :: us)
        (.binary ⟨operator, l.origin.span.cover r.origin.span⟩ l operator.text r) (max m (1 + n))
  | unary {us operator e n} :
      operator.kind ∈ unaryOperators → IsExpr lax .unary us e n →
      IsExpr lax .unary (operator :: us)
        (.unary ⟨operator, operator.span.cover e.origin.span⟩ operator.text e) (1 + n)
  -- a call costs no level of its own, for its arguments bring theirs along
  | call {ts us opening closing f es m n} :
      IsExpr lax .call ts f m → opening.kind = .openParen → IsArguments lax us es n →
      closing.kind = .closeParen →
      IsExpr lax .call (ts ++ opening :: (us ++ [closing]))
        (.call ⟨opening, f.origin.span.cover closing.span⟩ f es) (max m n)
  -- leaves
  | identifier {t} :
      t.kind = .identifier → IsExpr lax .primary [t] (.identifier ⟨.ofToken t, t.text⟩) 1
  | integer {t value} :
      t.kind = .number → Text.integer? t.text = some value →
      IsExpr lax .primary [t] (.integer (.ofToken t) value) 1
  | true {t} :
      t.kind = .kwTrue → IsExpr lax .primary [t] (.boolean (.ofToken t) true) 1
  | false {t} :
      t.kind = .kwFalse → IsExpr lax .primary [t] (.boolean (.ofToken t) false) 1
  -- a group has no node, and costs a level nevertheless
  | group {us opening closing e n} :
      opening.kind = .openParen → IsExpr lax .equality us e n → closing.kind = .closeParen →
      IsExpr lax .primary (opening :: (us ++ [closing])) e (1 + n)
  | conditional {ts us vs ws keyword opening closing c b f k m n} :
      keyword.kind = .kwIf → opening.kind = .openParen → IsExpr lax .equality us c k →
      closing.kind = .closeParen → IsBlock lax vs b m → IsAlternative lax ws f n →
      ts = keyword :: opening :: (us ++ closing :: (vs ++ ws)) →
      IsExpr lax .primary ts (.conditional ⟨keyword, .around ts⟩ c b f) (1 + max k (max m n))
  | function {ts us vs keyword opening closing xs b n} :
      keyword.kind = .kwFn → opening.kind = .openParen → IsList IsParameter us xs →
      closing.kind = .closeParen → IsBlock lax vs b n →
      ts = keyword :: opening :: (us ++ closing :: vs) →
      IsExpr lax .primary ts (.function ⟨keyword, .around ts⟩ xs b) (1 + n)

/-- The tokens are the arguments of a call, with commas between them; each is
a level deeper than the call. -/
inductive IsArguments (lax : Bool) : List Token → List ParsedExpr → Nat → Prop
  | none : IsArguments lax [] [] 0
  | one {ts e n} : IsExpr lax .equality ts e n → IsArguments lax ts [e] (1 + n)
  | more {ts us comma es e m n} :
      IsArguments lax ts es m → es ≠ [] → comma.kind = .comma → IsExpr lax .equality us e n →
      IsArguments lax (ts ++ comma :: us) (es ++ [e]) (max m (1 + n))

/-- The tokens are the second branch of a conditional, if there are any. -/
inductive IsAlternative (lax : Bool) : List Token → Option ParsedBlock → Nat → Prop
  | none : IsAlternative lax [] none 0
  | some {vs keyword b n} :
      keyword.kind = .kwElse → IsBlock lax vs b n → IsAlternative lax (keyword :: vs) (some b) n

/-- The tokens are a block. -/
inductive IsBlock (lax : Bool) : List Token → ParsedBlock → Nat → Prop
  | braces {us opening closing ss n} :
      opening.kind = .openCurly → IsStmts lax .closeCurly us ss n → closing.kind = .closeCurly →
      IsBlock lax (opening :: (us ++ [closing]))
        ⟨⟨opening, opening.span.cover closing.span⟩, ss⟩ (1 + n)

/-- The tokens, before one of kind `next`, are a statement; an empty one has
no tree. -/
inductive IsStmt (lax : Bool) : Kind → List Token → Option ParsedStmt → Nat → Prop
  | empty {next t} : t.kind = .semicolon → IsStmt lax next [t] none 0
  | block {next ts b n} : IsBlock lax ts b n → IsStmt lax next ts (some (.block b)) n
  | binding {next ts us vs keyword name assignment e n} :
      keyword.kind = .kwLet → name.kind = .identifier → assignment.kind = .assignment →
      IsExpr lax .equality us e n → IsEnd next vs →
      ts = keyword :: name :: assignment :: (us ++ vs) →
      IsStmt lax next ts
        (some (.binding ⟨keyword, .around ts⟩ ⟨.ofToken name, name.text⟩ e)) n
  | returning {next ts us vs keyword e n} :
      keyword.kind = .kwReturn → IsExpr lax .equality us e n → IsEnd next vs →
      ts = keyword :: (us ++ vs) →
      IsStmt lax next ts (some (.returning ⟨keyword, .around ts⟩ e)) n
  | expression {next ts us vs first e n} :
      IsExpr lax .equality us e n → IsEnd next vs → ts = us ++ vs → ts.head? = some first →
      IsStmt lax next ts (some (.expression ⟨first, .around ts⟩ e)) n

/-- The tokens, before one of kind `next`, are a sequence of statements. -/
inductive IsStmts (lax : Bool) : Kind → List Token → List ParsedStmt → Nat → Prop
  | nil {next} : IsStmts lax next [] [] 0
  | cons {next ts us found ss m n} :
      IsStmt lax (firstKind next us) ts found m → IsStmts lax next us ss n →
      IsStmts lax next (ts ++ us) (found.toList ++ ss) (max m n)
  | skip {next ts us ss n} :
      lax = true → IsStmts lax next us ss n → IsStmts lax next (ts ++ us) ss n

end

/-- The tokens are a program that needs so many levels of nesting. -/
def IsProgram (lax : Bool) (ts : List Token) (p : ParsedProgram) (n : Nat) : Prop :=
  IsStmts lax .eof ts p.statements n

variable {lax : Bool}

/-! ### What binds tighter may stand for what is looser -/

theorem IsExpr.loosen {stratum other : Stratum} {ts : List Token} {e : ParsedExpr} {n : Nat}
    (h : IsExpr lax other ts e n) (hle : stratum.rank ≤ other.rank) :
    IsExpr lax stratum ts e n := by
  -- on how many strata lie between the two
  induction hd : other.rank - stratum.rank generalizing stratum with
  | zero =>
    rw [Stratum.rank_inj (Nat.le_antisymm hle (Nat.le_of_sub_eq_zero hd))]
    exact h
  | succ d ih =>
    have hne : stratum ≠ .primary := by
      rintro rfl
      have := other.rank_le_primary
      omega
    have hrank := Stratum.rank_tighter hne
    exact .tighter (ih (by omega) (by omega))

/-- A primary expression may stand for any other one. -/
theorem IsExpr.of_primary {stratum : Stratum} {ts : List Token} {e : ParsedExpr} {n : Nat}
    (h : IsExpr lax .primary ts e n) : IsExpr lax stratum ts e n :=
  h.loosen stratum.rank_le_primary

/-! ### Lists from the front -/

/-- One item before the others. -/
theorem IsItems.cons {item : List Token → α → Prop} {us vs : List Token} {comma : Token} {a : α}
    {as : List α} (ha : item us a) (hk : comma.kind = .comma) (h : IsItems item vs as) :
    IsItems item (us ++ comma :: vs) (a :: as) := by
  induction h with
  | one hb => exact .more (.one ha) hk hb
  | more _ hk' hb ih =>
    have hmore := IsItems.more ih hk' hb
    rw [List.append_assoc, List.cons_append] at hmore
    exact hmore

/-- One argument before the others. -/
theorem IsArguments.cons {us vs : List Token} {comma : Token} {e : ParsedExpr}
    {es : List ParsedExpr} {m n : Nat} (he : IsExpr lax .equality us e m)
    (hk : comma.kind = .comma) (h : IsArguments lax vs es n) (hne : es ≠ []) :
    IsArguments lax (us ++ comma :: vs) (e :: es) (max (1 + m) n) := by
  match h with
  | .none => exact absurd rfl hne
  | .one he' => exact .more (.one he) (List.cons_ne_nil e []) hk he'
  | .more hes hne' hk' he' =>
    have hmore := IsArguments.more (hes.cons he hk hne') (List.cons_ne_nil _ _) hk' he'
    rw [List.append_assoc, List.cons_append] at hmore
    rw [← Nat.max_assoc]
    exact hmore

/-! ### First tokens, and levels -/

/-- An expression begins with a token with which expressions begin. -/
theorem IsExpr.first {stratum : Stratum} {ts : List Token} {e : ParsedExpr} {n : Nat}
    (h : IsExpr lax stratum ts e n) : ∃ x rest, ts = x :: rest ∧ x.kind.lead?.isSome := by
  match h with
  | .tighter h => exact h.first
  -- an operation or a call begins with its first part
  | .binary h _ _ =>
    obtain ⟨x, rest, rfl, hx⟩ := h.first
    exact ⟨x, _, rfl, hx⟩
  | .call h _ _ _ =>
    obtain ⟨x, rest, rfl, hx⟩ := h.first
    exact ⟨x, _, rfl, hx⟩
  -- all others begin with a token of their own
  | .unary hop _ =>
    refine ⟨_, _, rfl, ?_⟩
    rcases List.mem_cons.mp hop with h | h
    · rw [h]; rfl
    · rw [List.mem_singleton.mp h]; rfl
  | .identifier ht => exact ⟨_, _, rfl, by rw [ht]; rfl⟩
  | .integer ht _ => exact ⟨_, _, rfl, by rw [ht]; rfl⟩
  | .true ht => exact ⟨_, _, rfl, by rw [ht]; rfl⟩
  | .false ht => exact ⟨_, _, rfl, by rw [ht]; rfl⟩
  | .group ht _ _ => exact ⟨_, _, rfl, by rw [ht]; rfl⟩
  | .conditional ht _ _ _ _ _ hts => exact ⟨_, _, hts, by rw [ht]; rfl⟩
  | .function ht _ _ _ _ hts => exact ⟨_, _, hts, by rw [ht]; rfl⟩

/-- An expression is a level by itself. -/
theorem IsExpr.pos {stratum : Stratum} {ts : List Token} {e : ParsedExpr} {n : Nat}
    (h : IsExpr lax stratum ts e n) : 0 < n := by
  match h with
  | .tighter h => exact h.pos
  | .binary h _ _ => exact Nat.lt_of_lt_of_le h.pos (Nat.le_max_left ..)
  | .call h _ _ _ => exact Nat.lt_of_lt_of_le h.pos (Nat.le_max_left ..)
  | .unary .. | .group .. | .conditional .. | .function .. => exact Nat.add_pos_left Nat.one_pos _
  | .identifier _ | .integer .. | .true _ | .false _ => exact Nat.one_pos

/-- Does a statement begin with a token of this kind? -/
def startsStmt (kind : Kind) : Bool :=
  kind = .semicolon || kind.statementForm?.isSome || kind.lead?.isSome

theorem IsStmt.first {next : Kind} {ts : List Token} {found : Option ParsedStmt} {n : Nat}
    (h : IsStmt lax next ts found n) : ∃ x rest, ts = x :: rest ∧ startsStmt x.kind := by
  match h with
  | .empty ht => exact ⟨_, _, rfl, by rw [ht]; rfl⟩
  | .block (.braces ht _ _) => exact ⟨_, _, rfl, by rw [ht]; rfl⟩
  | .binding ht _ _ _ _ hts => exact ⟨_, _, hts, by rw [ht]; rfl⟩
  | .returning ht _ _ hts => exact ⟨_, _, hts, by rw [ht]; rfl⟩
  | .expression h _ hts _ =>
    obtain ⟨x, rest, rfl, hx⟩ := h.first
    exact ⟨x, _, hts, by simp [startsStmt, hx]⟩

/-- Statements in the grammar proper begin with a token with which statements begin. -/
theorem IsStmts.first {next : Kind} {ts : List Token} {ss : List ParsedStmt} {n : Nat}
    (h : IsStmts false next ts ss n) : ts = [] ∨ ∃ x rest, ts = x :: rest ∧ startsStmt x.kind := by
  match h with
  | .nil => exact .inl rfl
  | .cons h _ =>
    obtain ⟨x, rest, rfl, hx⟩ := h.first
    exact .inr ⟨x, _, rfl, hx⟩

end Grammar

end LetFn
