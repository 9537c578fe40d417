/-
LetFn/Proofs/Chains.lean

Chains: operands with a binary operator between any two of them.

The tree of a chain can be told without any parser: the last of the operators
that bind loosest is the root, and what stands on either side of it is a
chain again (`Chain.tree`).  `lastLoosest_eq_some_iff` says which operator
that is, and `Chain.tree_of_isLastLoosest` that it does not matter how it has
been found.

The parser for expressions never looks for such an operator.  It goes from
left to right, with the tree of what it has read so far in hand.  What makes
the two agree is that no operator in hand binds looser than the one that
comes next: so the next one becomes the root of what is read once its right
operand, which takes all that binds tighter, has been read (`passes_joints`).

Main statement: `run_expression_chain`.
-/
import LetFn.Proofs.Grammar
import LetFn.Proofs.Reader.History
import LetFn.Tree.Render

namespace LetFn

/-! ### Operands -/

/-- The tree of a token that is an expression by itself: a name, a truth
value, or a number that is an integer. -/
def leaf? (t : Token) : Option ParsedExpr :=
  match t.kind with
  | .identifier => some (.identifier ⟨.ofToken t, t.text⟩)
  | .number => (Text.integer? t.text).map (.integer (.ofToken t))
  | .kwTrue => some (.boolean (.ofToken t) true)
  | .kwFalse => some (.boolean (.ofToken t) false)
  | _ => none

/-- A token that is an expression, behind any number of unary operators. -/
structure Operand where
  operators : List Token
  token : Token
  leaf : ParsedExpr
  unary : ∀ t ∈ operators, t.kind ∈ Grammar.unaryOperators
  isLeaf : leaf? token = some leaf

namespace Operand

def tokens (a : Operand) : List Token := a.operators ++ [a.token]

/-- An operator is applied to what stands behind it. -/
def applied (operator : Token) (e : ParsedExpr) : ParsedExpr :=
  .unary ⟨operator, operator.span.cover e.origin.span⟩ operator.text e

/-- The operators are applied one after the other, from the last one to the first. -/
def tree (a : Operand) : ParsedExpr := a.operators.foldr applied a.leaf

end Operand

/-! ### Chains and their trees -/

/-- A binary operator, and the operand on its right. -/
structure Joint where
  operator : Token
  operand : Operand
  binary : operator.kind.link? = some .binary

namespace Joint

def tokens (j : Joint) : List Token := j.operator :: j.operand.tokens

def precedence (j : Joint) : Precedence := j.operator.kind.precedence

/-- The tree of an operator, from the trees on either side. -/
def joined (l : ParsedExpr) (j : Joint) (r : ParsedExpr) : ParsedExpr :=
  .binary ⟨j.operator, l.origin.span.cover r.origin.span⟩ l j.operator.text r

/-- Among the given joints, the last one of those that bind loosest, with
what stands before it and behind it. -/
def lastLoosest : List Joint → Option (List Joint × Joint × List Joint)
  | [] => none
  | j :: joints =>
    match lastLoosest joints with
    | none => some ([], j, joints)
    | some (before, i, behind) =>
      if j.precedence < i.precedence then some ([], j, joints) else some (j :: before, i, behind)

/-- Nothing before the joint binds looser, and all behind it bind tighter. -/
structure IsLastLoosest (before : List Joint) (j : Joint) (behind : List Joint) : Prop where
  before : ∀ i ∈ before, ¬ i.precedence < j.precedence
  behind : ∀ i ∈ behind, j.precedence < i.precedence

variable {i j : Joint} {joints before behind : List Joint}

theorem lastLoosest_eq_none_iff : lastLoosest joints = none ↔ joints = [] := by
  rcases joints with - | ⟨j, joints⟩
  · simp [lastLoosest]
  · rw [lastLoosest]
    split
    · simp
    · split
      · simp
      · simp

/-- The last of the loosest is what its name says. -/
theorem isLastLoosest_of_eq_some (h : lastLoosest joints = some (before, j, behind)) :
    joints = before ++ j :: behind ∧ IsLastLoosest before j behind := by
  -- on the joints from the back: the first one is compared with the best behind it
  induction joints generalizing before j behind with
  | nil => cases h
  | cons i joints ih =>
    rw [lastLoosest] at h
    split at h
    · -- nothing stands behind the joint
      next hnone =>
      obtain ⟨⟩ := h
      rw [lastLoosest_eq_none_iff.mp hnone]
      exact ⟨rfl, by simp, by simp⟩
    · next before' l behind' hsome =>
      obtain ⟨hjoints, hbefore, hbehind⟩ := ih hsome
      split at h
      · -- the joint binds looser than all behind it
        next hlt =>
        obtain ⟨⟩ := h
        refine ⟨rfl, by simp, fun x hx => ?_⟩
        rw [hjoints, List.mem_append, List.mem_cons] at hx
        rw [Precedence.lt_iff] at hlt ⊢
        rcases hx with hx | rfl | hx
        · have := hbefore x hx
          rw [Precedence.lt_iff] at this
          omega
        · exact hlt
        · have := hbehind x hx
          rw [Precedence.lt_iff] at this
          omega
      · -- one behind it binds as loosely, and is the later one
        next hlt =>
        obtain ⟨⟩ := h
        refine ⟨by rw [hjoints, List.cons_append], fun x hx => ?_, hbehind⟩
        rcases List.mem_cons.mp hx with rfl | hx
        · exact hlt
        · exact hbefore x hx

theorem lastLoosest_of_isLastLoosest (h : IsLastLoosest before j behind) :
    lastLoosest (before ++ j :: behind) = some (before, j, behind) := by
  induction before with
  | nil =>
    rw [List.nil_append, lastLoosest]
    split
    · rfl
    · next before' l behind' hsome =>
      obtain ⟨rfl, -⟩ := isLastLoosest_of_eq_some hsome
      -- all behind bind tighter, so the joint itself is taken
      exact if_pos (h.behind l (by simp))
  | cons i before ih =>
    have hlater := ih ⟨fun x hx => h.before x (List.mem_cons_of_mem i hx), h.behind⟩
    rw [List.cons_append, lastLoosest, hlater]
    -- what stands before does not bind looser, so the later one stays
    exact if_neg (h.before i (List.mem_cons_self ..))

theorem lastLoosest_eq_some_iff : lastLoosest joints = some (before, j, behind) ↔
    joints = before ++ j :: behind ∧ IsLastLoosest before j behind :=
  ⟨isLastLoosest_of_eq_some, fun ⟨hjoints, h⟩ => hjoints ▸ lastLoosest_of_isLastLoosest h⟩

end Joint

/-- An operand, and binary operators behind it with one more operand each. -/
structure Chain where
  first : Operand
  joints : List Joint

namespace Chain

def tokens (c : Chain) : List Token := c.first.tokens ++ c.joints.flatMap Joint.tokens

def operands (c : Chain) : List Operand := c.first :: c.joints.map Joint.operand

/-- The part of a chain up to the first operator that does not bind tighter than `p`. -/
def taken (p : Precedence) (c : Chain) : Chain :=
  ⟨c.first, c.joints.takeWhile fun j => p < j.precedence⟩

/-- The tree of a chain: the last of the loosest operators has the chain
before it on its left and the chain behind it on its right. -/
def tree (c : Chain) : ParsedExpr :=
  match _h : Joint.lastLoosest c.joints with
  | none => c.first.tree
  | some (before, j, behind) => j.joined (tree ⟨c.first, before⟩) (tree ⟨j.operand, behind⟩)
termination_by c.joints.length
decreasing_by
  all_goals
    obtain ⟨hjoints, -⟩ := Joint.isLastLoosest_of_eq_some _h
    rw [hjoints, List.length_append, List.length_cons]
    omega

variable {a : Operand} {j : Joint} {before behind : List Joint}

theorem tokens_append (a : Operand) (joints later : List Joint) :
    tokens ⟨a, joints ++ later⟩ = tokens ⟨a, joints⟩ ++ later.flatMap Joint.tokens := by
  simp [tokens]

/-- What is taken from a joint on is the joint, with what binds tighter than
it, and then what is taken of the others. -/
theorem takeWhile_cons_tighter {p : Precedence} {j : Joint} (hp : p < j.precedence)
    (joints : List Joint) :
    (j :: joints).takeWhile (p < ·.precedence) =
      j :: joints.takeWhile (j.precedence < ·.precedence) ++
        (joints.dropWhile (j.precedence < ·.precedence)).takeWhile (p < ·.precedence) := by
  rw [List.takeWhile_cons_of_pos (by simpa using hp), List.cons_append,
    ← List.takeWhile_append_of_pos, List.takeWhile_append_dropWhile]
  -- what binds tighter than the joint binds tighter than `p`, as the joint does
  intro i hi
  have hlt := List.all_eq_true.mp List.all_takeWhile i hi
  rw [decide_eq_true_iff, Precedence.lt_iff] at hlt ⊢
  exact Nat.lt_trans hp hlt

theorem tree_nil (a : Operand) : tree ⟨a, []⟩ = a.tree := by
  rw [tree]
  rfl

theorem tree_of_isLastLoosest (h : Joint.IsLastLoosest before j behind) :
    tree ⟨a, before ++ j :: behind⟩ =
      j.joined (tree ⟨a, before⟩) (tree ⟨j.operand, behind⟩) := by
  rw [tree]
  split
  · next hnone => simp [Joint.lastLoosest_of_isLastLoosest h] at hnone
  · next hsome =>
    rw [Joint.lastLoosest_of_isLastLoosest h] at hsome
    cases hsome
    rfl

end Chain

/-! ### Reading a chain -/

namespace Parser

open TokenStream

variable {p : Precedence}
variable {m n : Nat}
variable {s t : TokenStream}
variable {rest : List Token}
variable {e : ParsedExpr}
variable {a : Operand}

/-- The parser reads the tokens without errors, and has the given tree of them. -/
def ReadsAs (q : Parser ParsedExpr) (s : TokenStream) (ts : List Token) (e : ParsedExpr) : Prop :=
  ∃ t, q.Reads false s e t ∧ s.Covers ts t

theorem reads_lead {inner : Nested} (form : Lead) (h : s.current.kind.lead? = some form) :
    (lead inner).Reads false s e t ↔ (leading inner form).Reads false s e t := by
  rw [lead, reads_current_bind, h]

/-- What binds no tighter than asked for is left alone. -/
theorem reads_links_stop {inner : Nested} (h : ¬ p < s.peek.kind.precedence) :
    (links inner p e).Reads false s e s := by
  rw [links, reads_foldPeek, if_neg (by simpa using h)]
  exact ⟨rfl, rfl⟩

/-- A binary operator that binds tighter than asked for is read with its right operand. -/
theorem reads_links_joint {inner : Nested} {j : Joint} {l r : ParsedExpr} {u : TokenStream}
    (hpeek : s.peek = j.operator) (hp : p < j.precedence)
    (hr : (inner.expression j.precedence).Reads false s.advance.advance r t)
    (h : (links inner p (j.joined e r)).Reads false t l u) :
    (links inner p e).Reads false s l u := by
  obtain ⟨operator, operand, hbinary⟩ := j
  obtain rfl : s.peek = operator := hpeek
  have hcur : s.advance.current.kind.link? = some .binary := hbinary
  replace hp : p < s.peek.kind.precedence := hp
  rw [links, reads_foldPeek, if_pos (by simpa using hp)]
  -- the loop turns once, and then has the joined tree in hand
  refine ⟨_, t, ?_, h⟩
  rw [link, reads_current_bind, hcur]
  show (binary inner s.peek.kind.precedence e).Reads false s.advance _ t
  rw [binary, reads_current_bind, reads_advance_bind, reads_bind]
  exact ⟨r, t, hr, reads_pure.mpr ⟨rfl, rfl⟩⟩

/-- A leaf is read by itself. -/
theorem reads_lead_leaf {inner : Nested} (h : leaf? s.current = some e) :
    (lead inner).Reads false s e s := by
  unfold leaf? at h
  split at h
  · -- a name
    next hk =>
    cases h
    rw [reads_lead .identifier (by rw [hk]; rfl)]
    exact reads_current_bind.mpr (reads_pure.mpr ⟨rfl, rfl⟩)
  · next hk =>
    -- a number that can be read
    obtain ⟨value, hvalue, rfl⟩ := Option.map_eq_some_iff.mp h
    rw [reads_lead .integer (by rw [hk]; rfl)]
    apply reads_current_bind.mpr
    rw [hvalue]
    exact reads_pure.mpr ⟨rfl, rfl⟩
  · next hk =>
    cases h
    rw [reads_lead .boolean (by rw [hk]; rfl)]
    refine reads_current_bind.mpr (reads_pure.mpr ⟨?_, rfl⟩)
    rw [hk]
    rfl
  · next hk =>
    cases h
    rw [reads_lead .boolean (by rw [hk]; rfl)]
    refine reads_current_bind.mpr (reads_pure.mpr ⟨?_, rfl⟩)
    rw [hk]
    rfl
  · cases h

theorem kind_of_leaf? {token : Token} (h : leaf? token = some e) : token.kind ≠ .eof := by
  intro he
  rw [leaf?, he] at h
  cases h

/-- An operand is a leading part: each unary operator asks for an expression
that takes no link, and so reads just what is behind it. -/
theorem readsAs_lead (hn : a.operators.length ≤ n) (hs : s.pending = a.tokens ++ rest)
    (hrest : ¬ Precedence.unary < (firstKind .eof rest).precedence) :
    ReadsAs (lead (.within n)) s a.tokens a.tree := by
  obtain ⟨operators, token, leaf, hunary, hleaf⟩ := a
  -- on the operators; each one takes a level
  induction operators generalizing n s with
  | nil =>
    obtain rfl : s.current = token := current_of_pending hs
    exact ⟨s, reads_lead_leaf hleaf, .single rfl (beq_false_of_ne (kind_of_leaf? hleaf))⟩
  | cons operator operators ih =>
    obtain ⟨n, rfl⟩ : ∃ k, n = k + 1 := ⟨n - 1, by simp only [List.length_cons] at hn; omega⟩
    obtain rfl : s.current = operator := current_of_pending hs
    have hform : s.current.kind.lead? = some .unary := by
      rcases List.mem_cons.mp (hunary s.current (List.mem_cons_self ..)) with h | h
      · rw [h]; rfl
      · rw [List.mem_singleton.mp h]; rfl
    have hne : s.current.kind ≠ .eof := fun he => by simp [he, Kind.lead?] at hform
    have hadv := pending_advance_of_pending hs
    obtain ⟨t, hread, hcovers⟩ := ih (fun x hx => hunary x (List.mem_cons_of_mem _ hx))
      (Nat.le_of_succ_le_succ hn) hadv
    -- the operand of a unary operator takes no binary one
    have hstop : ¬ Precedence.unary < t.peek.kind.precedence := by
      rw [hcovers.kind_peek hadv]
      exact hrest
    refine ⟨t, ?_, hcovers.cons rfl (beq_false_of_ne hne)⟩
    rw [reads_lead .unary hform, leading, unary, reads_current_bind, reads_advance_bind, reads_bind]
    refine ⟨_, t, ?_, reads_pure.mpr ⟨rfl, rfl⟩⟩
    show (lead (.within n) >>= links (.within n) .unary).Reads false s.advance _ t
    exact reads_bind.mpr ⟨_, t, hread, reads_links_stop hstop⟩

/-! ### Reading a chain -/

/-- Whatever chain is in hand, if no operator of it binds looser than the next
one, the loop over the links goes on to what of `todo` binds tighter than
asked for.  Of the levels, one is for the operands, as many as `m` for their
unary operators, and one for each time that operators get tighter. -/
structure JointsRead (m : Nat) (todo : List Joint) : Prop where
  reads : ∀ {p : Precedence} {n : Nat} {a : Operand} {inHand : List Joint} {s t : TokenStream}
    {rest : List Token}, (∀ j ∈ todo, j.operand.operators.length ≤ m) →
    m + (4 - p.rank) ≤ n → (∀ i ∈ inHand, ∀ j ∈ todo.head?, ¬ i.precedence < j.precedence) →
    s.Covers (Chain.tokens ⟨a, inHand⟩) t →
    s.pending = Chain.tokens ⟨a, inHand ++ todo⟩ ++ rest → (firstKind .eof rest).link? = none →
    ∃ u, (links (.within n) p (Chain.tree ⟨a, inHand⟩)).Reads false t
        (Chain.tree ⟨a, inHand ++ todo.takeWhile (p < ·.precedence)⟩) u ∧
      s.Covers (Chain.tokens ⟨a, inHand ++ todo.takeWhile (p < ·.precedence)⟩) u

/-- A token that makes no link binds nothing. -/
theorem not_lt_of_link? {k : Kind} (h : k.link? = none) : ¬ p < k.precedence := by
  intro hlt
  have hsome := (Kind.isSome_link?_iff k).mpr (Nat.zero_lt_of_lt hlt)
  rw [h] at hsome
  cases hsome

theorem rank_precedence (j : Joint) : j.precedence.rank ≤ 4 := by
  obtain ⟨operator, -, hbinary⟩ := j
  show operator.kind.precedence.rank ≤ 4
  revert hbinary
  cases operator.kind <;> decide

/-- No operand stands before an argument list. -/
theorem not_unary_lt (todo : List Joint) (h : (firstKind .eof rest).link? = none) :
    ¬ Precedence.unary < (firstKind .eof (todo.flatMap Joint.tokens ++ rest)).precedence := by
  rcases todo with - | ⟨j, todo⟩
  · exact not_lt_of_link? h
  · -- a unary operator binds tighter than any joint
    have hrank := rank_precedence j
    intro hlt
    rw [Precedence.lt_iff] at hlt
    change 5 < j.precedence.rank at hlt
    omega

/-- A chain is read as its first operand and then what comes behind it. -/
theorem JointsRead.chain {c : Chain} (h : JointsRead m c.joints)
    (hm : ∀ a ∈ c.operands, a.operators.length ≤ m) (hn : m + 1 + (4 - p.rank) ≤ n)
    (hs : s.pending = c.tokens ++ rest) (hrest : (firstKind .eof rest).link? = none) :
    ReadsAs ((Nested.within n).expression p) s (c.taken p).tokens (c.taken p).tree := by
  obtain ⟨n, rfl⟩ : ∃ k, n = k + 1 := ⟨n - 1, by omega⟩
  obtain ⟨a, joints⟩ := c
  have hfirst : a.operators.length ≤ m := hm a (List.mem_cons_self ..)
  obtain ⟨t, hlead, hcovers⟩ := readsAs_lead (a := a) (n := n) (by omega)
    (hs.trans (List.append_assoc ..)) (not_unary_lt joints hrest)
  -- the operand is a chain without joints, and the first one in hand
  have hempty : a.tokens = Chain.tokens ⟨a, []⟩ := (List.append_nil _).symm
  rw [hempty] at hcovers
  obtain ⟨u, hlinks, hcovers⟩ := h.reads (p := p) (n := n)
    (fun j hj => hm _ (List.mem_cons_of_mem _ (List.mem_map_of_mem hj))) (by omega)
    (by simp) hcovers hs hrest
  refine ⟨u, ?_, hcovers⟩
  rw [Chain.tree_nil] at hlinks
  exact reads_bind.mpr ⟨_, t, hlead, hlinks⟩

/-- Behind the joint at the head of `j :: todo` and what it takes, no operator
in hand binds looser than the next one either. -/
theorem not_lt_head?_dropWhile {j : Joint} {inHand todo : List Joint}
    (h : ∀ i ∈ inHand, ¬ i.precedence < j.precedence) :
    ∀ i ∈ inHand ++ j :: todo.takeWhile (j.precedence < ·.precedence),
      ∀ l ∈ (todo.dropWhile (j.precedence < ·.precedence)).head?, ¬ i.precedence < l.precedence := by
  intro i hi l hl
  -- the operator that comes next is the one at which the right operand stopped
  have hstop : ¬ j.precedence < l.precedence := by
    have hhead := List.head?_dropWhile_not (j.precedence < ·.precedence) todo
    rw [Option.mem_def.mp hl] at hhead
    simpa using hhead
  rw [Precedence.lt_iff] at hstop ⊢
  -- in hand before, the joint itself, or taken by its right operand
  rcases List.mem_append.mp hi with hi | hi
  · have := h i hi
    rw [Precedence.lt_iff] at this
    omega
  · rcases List.mem_cons.mp hi with rfl | hi
    · exact hstop
    · have hlt := List.all_eq_true.mp List.all_takeWhile i hi
      rw [decide_eq_true_iff, Precedence.lt_iff] at hlt
      omega

/-- The loop stops at once where the next operator binds no tighter than asked for. -/
theorem joints_read_stop {c : Chain} (todo : List Joint) (ht : s.Covers c.tokens t)
    (hs : s.pending = c.tokens ++ (todo.flatMap Joint.tokens ++ rest))
    (hrest : (firstKind .eof rest).link? = none) (hp : ∀ j ∈ todo.head?, ¬ p < j.precedence) :
    (links (.within n) p c.tree).Reads false t c.tree t := by
  apply reads_links_stop
  rw [ht.kind_peek hs]
  rcases todo with - | ⟨j, todo⟩
  · -- the end of the chain, or an operator that does not bind tighter
    exact not_lt_of_link? hrest
  · exact hp j rfl

/-- A chain in hand, a joint, and what its right operand takes make up a longer chain. -/
theorem covers_joint {u : TokenStream} {j : Joint} {inHand more : List Joint}
    (ht : s.Covers (Chain.tokens ⟨a, inHand⟩) t) (hpeek : t.peek = j.operator)
    (hu : t.advance.advance.Covers (Chain.tokens ⟨j.operand, more⟩) u) :
    s.Covers (Chain.tokens ⟨a, inHand ++ j :: more⟩) u := by
  -- a binary operator is not the end
  have hne : t.peek.kind ≠ .eof := by
    intro he
    have hbinary := j.binary
    rw [← hpeek, he] at hbinary
    cases hbinary
  have hjoint := ht.append (hu.cons (s := t.advance) rfl (beq_false_of_ne hne))
  rw [Chain.tokens_append]
  rw [show t.advance.current = j.operator from hpeek] at hjoint
  exact hjoint

theorem JointsRead.nil : JointsRead m [] := by
  refine ⟨?_⟩
  intro p n a inHand s t rest _ _ _ ht hs hrest
  rw [List.takeWhile_nil, List.append_nil]
  rw [List.append_nil] at hs
  exact ⟨t, joints_read_stop [] ht hs hrest (by simp), ht⟩

/-- A turn of the loop, if the joints behind are read. -/
theorem JointsRead.cons {j : Joint} {todo : List Joint}
    (h : ∀ later : List Joint, later.length ≤ todo.length → JointsRead m later) :
    JointsRead m (j :: todo) := by
  refine ⟨?_⟩
  intro p n a inHand s t rest hm hn hhand ht hs hrest
  have hsplit := hs
  rw [Chain.tokens_append, List.append_assoc] at hsplit
  by_cases hp : p < j.precedence
  -- the operator is left to someone further out
  case neg =>
    rw [List.takeWhile_cons_of_neg (by simpa using hp), List.append_nil]
    exact ⟨t, joints_read_stop (j :: todo) ht hsplit hrest (by simpa using hp), ht⟩
  have hloosest : ∀ i ∈ inHand, ¬ i.precedence < j.precedence := fun i hi => hhand i hi j rfl
  have hpend : t.advance.pending = j.operator :: (Chain.tokens ⟨j.operand, todo⟩ ++ rest) := by
    rw [ht.pending_advance hsplit]
    simp [Chain.tokens, Joint.tokens]
  have hpeek : t.peek = j.operator := current_of_pending hpend
  -- the right operand takes all that binds tighter than the operator
  have hoperands : ∀ b ∈ Chain.operands ⟨j.operand, todo⟩, b.operators.length ≤ m := by
    show ∀ b ∈ (j :: todo).map Joint.operand, b.operators.length ≤ m
    exact List.forall_mem_map.mpr hm
  have hlevels : m + 1 + (4 - j.precedence.rank) ≤ n := by
    have hrank := rank_precedence j
    rw [Precedence.lt_iff] at hp
    omega
  obtain ⟨u, hright, hu⟩ := (h todo (Nat.le_refl _)).chain hoperands hlevels
    (pending_advance_of_pending hpend) hrest
  -- the operator is the last of the loosest in hand, and the loop goes on with it as the root
  have hroot : Joint.IsLastLoosest inHand j (todo.takeWhile (j.precedence < ·.precedence)) :=
    ⟨hloosest, fun i hi => by simpa using List.all_eq_true.mp List.all_takeWhile i hi⟩
  have hrejoin : inHand ++ j :: todo =
      inHand ++ j :: todo.takeWhile (j.precedence < ·.precedence) ++
        todo.dropWhile (j.precedence < ·.precedence) := by
    simp
  obtain ⟨v, hlinks, hv⟩ := (h _ (List.dropWhile_sublist _).length_le).reads
    (fun i hi => hm i (List.mem_cons_of_mem j ((List.dropWhile_sublist _).mem hi))) hn
    (not_lt_head?_dropWhile hloosest) (covers_joint ht hpeek hu) (hrejoin ▸ hs) hrest
  rw [List.append_assoc, ← Chain.takeWhile_cons_tighter hp] at hlinks hv
  rw [Chain.tree_of_isLastLoosest hroot] at hlinks
  exact ⟨v, reads_links_joint hpeek hp hright hlinks, hv⟩

theorem jointsRead (m : Nat) (todo : List Joint) : JointsRead m todo := by
  -- on the length: both the right operand and the rest of the loop have fewer joints
  induction hlen : todo.length using Nat.strongRecOn generalizing todo with
  | ind len ih =>
    subst hlen
    rcases todo with - | ⟨j, todo⟩
    · exact .nil
    · exact .cons fun later hlater => ih _ (Nat.lt_succ_of_le hlater) later rfl

/-- An expression that asks for what binds tighter than `p` is that part of a
chain, with the tree that the chain says it has. -/
theorem readsAs_chain (c : Chain) (hm : ∀ a ∈ c.operands, a.operators.length ≤ m)
    (hn : m + 1 + (4 - p.rank) ≤ n) (hs : s.pending = c.tokens ++ rest)
    (hrest : (firstKind .eof rest).link? = none) :
    ReadsAs ((Nested.within n).expression p) s (c.taken p).tokens (c.taken p).tree :=
  (jointsRead m c.joints).chain hm hn hs hrest

end Parser

/-! ### Where the reader stands -/

namespace Reader

variable {source : TokenSource}
variable {r : Reader}
variable {k : Nat}

/-- The current token and what stands behind it are all that is pending. -/
theorem pending_congr {s t : TokenStream} (hcurrent : s.current = t.current)
    (hadvance : s.advance.pending = t.advance.pending) : s.pending = t.pending := by
  -- at the end nothing is pending; before it, the current token and the rest are
  by_cases he : s.current.kind = .eof
  · rw [TokenStream.kind_current_eq_eof_iff.mp he,
      TokenStream.kind_current_eq_eof_iff.mp (hcurrent ▸ he)]
  · have he' : t.current.kind ≠ .eof := hcurrent ▸ he
    rw [TokenStream.pending_eq_cons he, TokenStream.pending_eq_cons he', hcurrent, hadvance]

/-- A window shows all that is pending. -/
theorem pending_of_shows {w : Window} {s t : TokenStream} (hs : w.Shows s) (ht : w.Shows t) :
    s.pending = t.pending :=
  pending_congr (hs.current.symm.trans ht.current) <|
    pending_congr (hs.peek.symm.trans ht.peek) <|
      congrArg TokenStream.pending (hs.source.symm.trans ht.source)

/-- A call that covers some tokens leaves the reader on the last one of them. -/
theorem At.covered {ts : List Token} {c : Call} (h : At source k r)
    (hcovers : (source.skip k).stream.Covers ts (c.parser.run (source.skip k).stream).rest) :
    At source (k + ts.length - 1) (c.action.run r).2 := by
  obtain ⟨-, hcarried⟩ := call_follows c h.shows h.depth h.blockDepth
  obtain ⟨k', hle, hk'⟩ := h.call c
  obtain ⟨n, rfl⟩ := Nat.exists_eq_add_of_le hle
  have hshows := hcarried.shows
  generalize (c.parser.run (source.skip k).stream).rest = t at hcovers hshows
  -- the last token that is covered is not the end
  have hne : t.current.kind ≠ .eof := by
    apply (source.skip k).stream.kind_pending
    rw [hcovers.pending]
    exact List.mem_append_left _ (List.mem_of_getLast? hcovers.getLast?)
  -- what is left behind that token tells how far the reader has moved
  have hpending := pending_of_shows hshows hk'.shows
  rw [TokenSource.pending_skip_add, hcovers.pending, TokenStream.pending_eq_cons hne] at hpending
  have hlength := congrArg List.length hpending
  rw [List.length_drop, List.length_append, List.length_cons] at hlength
  have hn : k + n = k + ts.length - 1 := by omega
  exact hn ▸ hk'

/-- **A chain is read as it is grouped**, at every precedence: from a chain whose
operands have at most 120 unary operators each, before a token that makes no
link, a reader takes the part up to the first operator that does not bind
tighter than `p`.  It stops on the last token of that part, has found nothing
wrong, and has the tree whose root is the last of the loosest operators. -/
theorem run_expression_chain (h : At source k r) (c : Chain) {rest : List Token}
    (hs : (source.skip k).stream.pending = c.tokens ++ rest)
    (hm : ∀ a ∈ c.operands, a.operators.length ≤ 120)
    (hrest : (firstKind .eof rest).link? = none) (p : Precedence) :
    ((Call.expression p).action.run r).1 = .ok (c.taken p).tree ∧
      At source (k + (c.taken p).tokens.length - 1) ((Call.expression p).action.run r).2 ∧
      (c.taken p).tokens.getLast? = some ((Call.expression p).action.run r).2.window.current ∧
      ((Call.expression p).action.run r).2.errors = r.errors := by
  obtain ⟨t, ⟨hvalue, rfl, herrors⟩, hcovers⟩ :=
    Parser.readsAs_chain (p := p) (n := maxNesting) c hm (by unfold maxNesting; omega) hs hrest
  obtain ⟨hresult, hcarried⟩ := call_follows (.expression p) h.shows h.depth h.blockDepth
  refine ⟨hresult.trans hvalue, h.covered hcovers, ?_, ?_⟩
  · rw [hcarried.shows.current]
    exact hcovers.getLast?
  · -- a run without errors on the stream is one without errors in the reader
    have hnone : errorsOf ((Call.expression p).parser.run (source.skip k).stream).events = [] :=
      herrors rfl
    rw [hcarried.errors, hnone, List.append_nil]

/-- Behind the first three tokens of a source, a reader asks for what binds
tighter than `==`.  The differences group to the left, and the product stands
within one of them. -/
theorem run_expression_chain_example :
    let source := TokenSource.text (.ofSource "shell" "let x = a - -b * 2 - c == d; e")
    let before := (ofSource source).afterCalls [.advance, .advance, .advance]
    let word (kind : Kind) (text : String) (n : Nat) : Token :=
      ⟨kind, text, .ofBytes "shell" n text.utf8ByteSize⟩
    let name (text : String) (n : Nat) : Operand :=
      ⟨[], word .identifier text n, .identifier ⟨.ofToken (word .identifier text n), text⟩,
        by decide, rfl⟩
    let minus : Operand := { name "b" 13 with operators := [word .dash "-" 12], unary := by decide }
    let two : Operand :=
      ⟨[], word .number "2" 17, .integer (.ofToken (word .number "2" 17)) 2, by decide,
        by decide +kernel⟩
    let c : Chain := ⟨name "a" 8, [⟨word .dash "-" 10, minus, rfl⟩, ⟨word .star "*" 15, two, rfl⟩,
      ⟨word .dash "-" 19, name "c" 21, rfl⟩, ⟨word .equals "==" 23, name "d" 26, rfl⟩]⟩
    let o := (Call.expression .equality).action.run before
    At source 3 before ∧ (source.skip 3).stream.pending =
        c.tokens ++ [word .semicolon ";" 27, word .identifier "e" 29] ∧
      o.1 = .ok (c.taken .equality).tree ∧ At source 10 o.2 ∧
      (c.taken .equality).tree.render = "((a - ((-b) * 2)) - c)" := by
  intro source before word name minus two c o
  have hat : At source 3 before := ⟨by decide +kernel, by decide +kernel, by decide +kernel⟩
  have hs : (source.skip 3).stream.pending =
      c.tokens ++ [word .semicolon ";" 27, word .identifier "e" 29] := by decide +kernel
  obtain ⟨hvalue, hstop, -, -⟩ :=
    run_expression_chain hat c hs (by decide) rfl .equality
  exact ⟨hat, hs, hvalue, hstop, by decide +kernel⟩

end Reader

end LetFn
