/-
LetFn/Proofs/Brackets.lean

Brackets that only group, and the span of an expression.

Such brackets leave no trace in the tree, and the span of an operation runs
from operand to operand.  So an operand in brackets, at either end of an
operation, leaves one bracket outside of the span and the other one within:
the operation `(a + b) * c` spans `a + b) * c`.

What is left over can be counted.  Brackets without a partner add up like
this: the opening ones of a stretch find partners among the closing ones of
the next one (`Unmatched`).  In a whole expression every bracket has a partner
(`matched_expr`).  An expression with the brackets around it falls into some
`(`, what lies within its span, and some `)` (`Passage`); and without the
brackets around it, those outside of the span are just the ones that have no
partner within it (`quotable_expr`).

So every expression of a tree can be read by itself, from tokens that stand
one right behind the other where the tree was read, and with no more levels.

Main statement: `quotable_nodes_stmts`.
-/
import LetFn.Proofs.Spans

namespace LetFn

variable {ts us pre core post tokens : List Token}
variable {t opening closing : Token}
variable {k : Kind}

/-! ### Brackets without a partner -/

/-- How many brackets of a stretch have no partner in it; all the closing ones
come before all the opening ones. -/
@[ext]
structure Unmatched where
  closing : Nat
  opening : Nat
  deriving DecidableEq, Repr

namespace Unmatched

/-- One stretch behind the other: brackets that the first one leaves open are
closed by the second one. -/
instance : Append Unmatched :=
  ⟨fun a b => ⟨a.closing + (b.closing - a.opening), b.opening + (a.opening - b.closing)⟩⟩

variable {a b c : Unmatched}

theorem closing_append : (a ++ b).closing = a.closing + (b.closing - a.opening) := rfl

theorem opening_append : (a ++ b).opening = b.opening + (a.opening - b.closing) := rfl

theorem append_assoc : a ++ b ++ c = a ++ (b ++ c) := by
  ext
  · simp only [closing_append, opening_append]
    omega
  · simp only [closing_append, opening_append]
    omega

theorem none_append : ⟨0, 0⟩ ++ a = a := by
  ext
  · simp only [closing_append]
    omega
  · simp only [opening_append]
    omega

theorem append_none : a ++ ⟨0, 0⟩ = a := by
  ext
  · simp only [closing_append]
    omega
  · simp only [opening_append]
    omega

end Unmatched

/-- What a token of this kind is as a bracket. -/
def Kind.bracket : Kind → Unmatched
  | openParen => ⟨0, 1⟩
  | closeParen => ⟨1, 0⟩
  | _ => ⟨0, 0⟩

/-- The brackets among the tokens that have no partner there. -/
def unmatched : List Token → Unmatched
  | [] => ⟨0, 0⟩
  | t :: ts => t.kind.bracket ++ unmatched ts

theorem unmatched_append (ts us : List Token) :
    unmatched (ts ++ us) = unmatched ts ++ unmatched us := by
  induction ts with
  | nil => exact Unmatched.none_append.symm
  | cons t ts ih => rw [List.cons_append, unmatched, ih, unmatched, Unmatched.append_assoc]

/-- Only the kinds of the tokens count. -/
theorem unmatched_congr (h : ts.map (·.kind) = us.map (·.kind)) : unmatched ts = unmatched us := by
  induction ts generalizing us with
  | nil => rw [List.map_eq_nil_iff.mp h.symm]
  | cons t ts ih =>
    obtain ⟨u, us, rfl, hk, hrest⟩ := List.map_eq_cons_iff.mp h.symm
    rw [unmatched, unmatched, ih hrest.symm, show u.kind = t.kind from hk]

theorem unmatched_opening (h : ∀ t ∈ ts, t.kind = .openParen) :
    unmatched ts = ⟨0, ts.length⟩ := by
  induction ts with
  | nil => rfl
  | cons t ts ih =>
    obtain ⟨ht, hts⟩ := List.forall_mem_cons.mp h
    rw [unmatched, ih hts, ht]
    rfl

theorem unmatched_closing (h : ∀ t ∈ ts, t.kind = .closeParen) :
    unmatched ts = ⟨ts.length, 0⟩ := by
  induction ts with
  | nil => rfl
  | cons t ts ih =>
    obtain ⟨ht, hts⟩ := List.forall_mem_cons.mp h
    rw [unmatched, ih hts, ht]
    -- the brackets of the first token and of the others do not meet
    ext
    · show 1 + (ts.length - 0) = ts.length + 1
      omega
    · show 0 + (0 - ts.length) = 0
      omega

/-- Every bracket has its partner. -/
def Matched (ts : List Token) : Prop := unmatched ts = ⟨0, 0⟩

namespace Matched

theorem nil : Matched [] := rfl

theorem append (h : Matched ts) (h' : Matched us) : Matched (ts ++ us) := by
  rw [Matched, unmatched_append, h, h']
  rfl

theorem cons (hk : t.kind = k) (hb : k.bracket = ⟨0, 0⟩) (h : Matched ts) : Matched (t :: ts) := by
  rw [Matched, unmatched, hk, hb, h]
  rfl

theorem between (ho : opening.kind = .openParen) (h : Matched ts) (hc : closing.kind = .closeParen)
    (h' : Matched us) : Matched (opening :: (ts ++ closing :: us)) := by
  rw [Matched, unmatched, unmatched_append, unmatched, ho, hc, h, h']
  rfl

theorem unmatched_front (h : Matched us) : unmatched (ts ++ us) = unmatched ts := by
  rw [unmatched_append, h, Unmatched.append_none]

/-- What some opening brackets leave to be closed. -/
theorem unmatched_of_opening (h : Matched (pre ++ us)) (hpre : ∀ t ∈ pre, t.kind = .openParen) :
    unmatched us = ⟨pre.length, 0⟩ := by
  rw [Matched, unmatched_append, unmatched_opening hpre, Unmatched.ext_iff] at h
  simp only [Unmatched.closing_append, Unmatched.opening_append] at h
  ext
  · show _ = pre.length
    omega
  · show _ = 0
    omega

/-- What some closing brackets have to have before them. -/
theorem unmatched_of_closing (h : Matched (ts ++ post))
    (hpost : ∀ t ∈ post, t.kind = .closeParen) : unmatched ts = ⟨0, post.length⟩ := by
  rw [Matched, unmatched_append, unmatched_closing hpost, Unmatched.ext_iff] at h
  simp only [Unmatched.closing_append, Unmatched.opening_append] at h
  ext
  · show _ = 0
    omega
  · show _ = post.length
    omega

end Matched

namespace Grammar

/-! ### Whole expressions -/

variable {n : Nat}

theorem matched_items {names : List (Name Origin)} (h : IsItems IsParameter ts names) :
    Matched ts := by
  induction h with
  | one h =>
    obtain @⟨t, hk⟩ := h
    exact .cons hk rfl .nil
  | more _ hcomma h ih =>
    obtain @⟨t, hk⟩ := h
    exact .append ih (.cons hcomma rfl (.cons hk rfl .nil))

theorem matched_parameters {names : List (Name Origin)} (h : IsList IsParameter ts names) :
    Matched ts := by
  cases h with
  | none => exact .nil
  | items h => exact matched_items h

theorem matched_end {next : Kind} (h : IsEnd next ts) : Matched ts := by
  cases h with
  | semicolon hk => exact .cons hk rfl .nil
  | none _ _ => exact .nil

theorem matched_operator {stratum : Stratum} (hop : t.kind ∈ stratum.operators) :
    t.kind.bracket = ⟨0, 0⟩ := by
  revert hop
  cases stratum <;> cases t.kind <;> decide

theorem matched_unaryOperator (hop : t.kind ∈ unaryOperators) : t.kind.bracket = ⟨0, 0⟩ := by
  revert hop
  cases t.kind <;> decide

mutual

theorem matched_expr {stratum : Stratum} {ts : List Token} {e : ParsedExpr} {n : Nat}
    (h : IsExpr false stratum ts e n) : Matched ts := by
  match h with
  | .tighter h => exact matched_expr h
  -- an operator is no bracket
  | .binary hl hop hr =>
    exact .append (matched_expr hl) (.cons rfl (matched_operator hop) (matched_expr hr))
  | .unary hop he => exact .cons rfl (matched_unaryOperator hop) (matched_expr he)
  | .call hf hopen hes hclose =>
    exact .append (matched_expr hf) (.between hopen (matched_arguments hes) hclose .nil)
  | .identifier hk | .integer hk _ | .true hk | .false hk => exact .cons hk rfl .nil
  | .group hopen he hclose => exact .between hopen (matched_expr he) hclose .nil
  -- the keyword, a pair of brackets, and what stands behind the pair
  | .conditional hif hopen hc hclose hb hf hts =>
    subst hts
    have hbranches := (matched_block hb).append (matched_alternative hf)
    exact .cons hif rfl (.between hopen (matched_expr hc) hclose hbranches)
  | .function hfn hopen hxs hclose hb hts =>
    subst hts
    exact .cons hfn rfl (.between hopen (matched_parameters hxs) hclose (matched_block hb))

theorem matched_arguments {ts : List Token} {es : List ParsedExpr} {n : Nat}
    (h : IsArguments false ts es n) : Matched ts := by
  match h with
  | .none => exact .nil
  | .one he => exact matched_expr he
  | .more hes _ hcomma he =>
    exact .append (matched_arguments hes) (.cons hcomma rfl (matched_expr he))

theorem matched_alternative {ts : List Token} {f : Option ParsedBlock} {n : Nat}
    (h : IsAlternative false ts f n) : Matched ts := by
  match h with
  | .none => exact .nil
  | .some helse hb => exact .cons helse rfl (matched_block hb)

theorem matched_block {ts : List Token} {b : ParsedBlock} {n : Nat} (h : IsBlock false ts b n) :
    Matched ts := by
  match h with
  | .braces hopen hs hclose =>
    exact .cons hopen rfl (.append (matched_stmts hs) (.cons hclose rfl .nil))

theorem matched_stmt {next : Kind} {ts : List Token} {found : Option ParsedStmt} {n : Nat}
    (h : IsStmt false next ts found n) : Matched ts := by
  match h with
  | .empty hk => exact .cons hk rfl .nil
  | .block hb => exact matched_block hb
  -- the tokens up to the value are no brackets
  | .binding hlet hname hassign he hend hts =>
    subst hts
    have hvalue := (matched_expr he).append (matched_end hend)
    exact .cons hlet rfl (.cons hname rfl (.cons hassign rfl hvalue))
  | .returning hreturn he hend hts =>
    subst hts
    exact .cons hreturn rfl ((matched_expr he).append (matched_end hend))
  | .expression he hend hts _ =>
    subst hts
    exact (matched_expr he).append (matched_end hend)

theorem matched_stmts {next : Kind} {ts : List Token} {ss : List ParsedStmt} {n : Nat}
    (h : IsStmts false next ts ss n) : Matched ts := by
  match h with
  | .nil => exact .nil
  | .cons h hs => exact (matched_stmt h).append (matched_stmts hs)

end

end Grammar

/-! ### Within the span, and outside of it -/

variable {a b : Span}
variable {pre' core' post' : List Token}

/-- The tokens are some opening brackets, those within the span, and some
closing brackets. -/
structure Passage (ts : List Token) (s : Span) (pre core post : List Token) : Prop where
  eq : ts = pre ++ (core ++ post)
  opening : ∀ t ∈ pre, t.kind = .openParen
  closing : ∀ t ∈ post, t.kind = .closeParen
  ne_nil : core ≠ []
  span : s = .around core

namespace Passage

/-- Nothing is outside of the span. -/
theorem whole (hne : ts ≠ []) : Passage ts (.around ts) [] ts [] :=
  ⟨(List.append_nil ts).symm, List.forall_mem_nil _, List.forall_mem_nil _, hne, rfl⟩

/-- The brackets around an expression are outside of its span. -/
theorem group (ho : opening.kind = .openParen) (h : Passage ts a pre core post)
    (hc : closing.kind = .closeParen) :
    Passage (opening :: (ts ++ [closing])) a (opening :: pre) core (post ++ [closing]) where
  eq := by simp [h.eq]
  opening := List.forall_mem_cons.mpr ⟨ho, h.opening⟩
  closing := List.forall_mem_append.mpr ⟨h.closing, List.forall_mem_singleton.mpr hc⟩
  ne_nil := h.ne_nil
  span := h.span

theorem unary (t : Token) (h : Passage us b pre core post) :
    Passage (t :: us) (t.span.cover b) [] ([t] ++ (pre ++ core)) post where
  eq := by simp [h.eq]
  opening := List.forall_mem_nil _
  closing := h.closing
  ne_nil := List.cons_ne_nil _ _
  span := by
    rw [Span.around_append (List.cons_ne_nil t []) h.ne_nil, ← h.span]
    rfl

theorem binary (t : Token) (h : Passage ts a pre core post) (h' : Passage us b pre' core' post') :
    Passage (ts ++ t :: us) (a.cover b) pre (core ++ ((post ++ t :: pre') ++ core')) post' where
  eq := by simp [h.eq, h'.eq]
  opening := h.opening
  closing := h'.closing
  ne_nil := List.append_ne_nil_of_left_ne_nil h.ne_nil _
  span := by rw [Span.around_append h.ne_nil h'.ne_nil, ← h.span, ← h'.span]

theorem call (opening closing : Token) (us : List Token) (h : Passage ts a pre core post) :
    Passage (ts ++ opening :: (us ++ [closing])) (a.cover closing.span) pre
      (core ++ ((post ++ opening :: us) ++ [closing])) [] where
  eq := by simp [h.eq]
  opening := h.opening
  closing := List.forall_mem_nil _
  ne_nil := List.append_ne_nil_of_left_ne_nil h.ne_nil _
  span := by
    rw [Span.around_append h.ne_nil (List.cons_ne_nil closing []), ← h.span]
    rfl

/-- What is outside of the span in front has to be closed behind. -/
theorem unmatched_front (h : Passage ts a pre core post) (hts : Matched ts) :
    unmatched (core ++ post) = ⟨pre.length, 0⟩ :=
  Matched.unmatched_of_opening (h.eq ▸ hts) h.opening

/-- What is outside of the span behind has to be opened in front. -/
theorem unmatched_back (h : Passage ts a pre core post) (hts : Matched ts) :
    unmatched (pre ++ core) = ⟨0, post.length⟩ := by
  refine Matched.unmatched_of_closing ?_ h.closing
  rw [List.append_assoc, ← h.eq]
  exact hts

theorem unmatched_unary (h : Passage us b pre core post) (hus : Matched us)
    (ht : t.kind.bracket = ⟨0, 0⟩) : unmatched ([t] ++ (pre ++ core)) = ⟨0, post.length⟩ := by
  rw [List.singleton_append, unmatched, ht, h.unmatched_back hus]
  rfl

theorem unmatched_binary (h : Passage ts a pre core post) (h' : Passage us b pre' core' post')
    (hts : Matched ts) (hus : Matched us) (ht : t.kind.bracket = ⟨0, 0⟩) :
    unmatched (core ++ ((post ++ t :: pre') ++ core')) = ⟨pre.length, post'.length⟩ := by
  -- what the left operand leaves open, and what the right one has to have opened
  have hassoc : core ++ ((post ++ t :: pre') ++ core') =
      (core ++ post) ++ ([t] ++ (pre' ++ core')) := by simp
  rw [hassoc, unmatched_append, h.unmatched_front hts, h'.unmatched_unary hus ht]
  rfl

theorem unmatched_call (h : Passage ts a pre core post) (hts : Matched ts)
    (hus : Matched (opening :: (us ++ [closing]))) :
    unmatched (core ++ ((post ++ opening :: us) ++ [closing])) = ⟨pre.length, 0⟩ := by
  -- the arguments with their brackets leave nothing open
  have hassoc : core ++ ((post ++ opening :: us) ++ [closing]) =
      (core ++ post) ++ (opening :: (us ++ [closing])) := by simp
  rw [hassoc, unmatched_append, h.unmatched_front hts, hus]
  rfl

end Passage

namespace Grammar

/-! ### Brackets at the edges -/

variable {n j k : Nat}

/-- The tokens are an expression with `k` brackets around it.  The first `front`
of them are opening brackets, those around the expression and those around the
operand or callee with which it begins; the last `back` of them are closing ones,
those around the expression and those around the operand with which it ends. -/
inductive Bracketing : Nat → List Token → ParsedExpr → Nat → Nat → Prop
  /-- Nothing but an operation or a call has operands at its edges. -/
  | primary {ts e n} : IsExpr false .primary ts e n → firstKind .eof ts ≠ .openParen →
      Bracketing 0 ts e 0 0
  | group {us opening closing e k front back} :
      opening.kind = .openParen → Bracketing k us e front back → closing.kind = .closeParen →
      Bracketing (k + 1) (opening :: (us ++ [closing])) e (front + 1) (back + 1)
  /-- The operator comes first, whatever brackets there are around the operand. -/
  | unary {us operator span e k front back} :
      operator.kind ∈ unaryOperators → Bracketing k us e front back →
      Bracketing 0 (operator :: us) (.unary ⟨operator, span⟩ operator.text e) 0 back
  | binary {ts us operator span l r j k front back front' back'} :
      Bracketing j ts l front back → operator.kind.link? = some .binary →
      Bracketing k us r front' back' →
      Bracketing 0 (ts ++ operator :: us) (.binary ⟨operator, span⟩ l operator.text r) front back'
  /-- The bracket behind the arguments comes last, and belongs to the call. -/
  | call {ts us opening closing span f es k n front back} :
      Bracketing k ts f front back → opening.kind = .openParen → IsArguments false us es n →
      closing.kind = .closeParen →
      Bracketing 0 (ts ++ opening :: (us ++ [closing])) (.call ⟨opening, span⟩ f es) front 0

/-- An expression with `k` brackets around it: outside of its span are these,
and those around the operands and callees at its edges. -/
structure Edged (k : Nat) (ts : List Token) (e : ParsedExpr) (pre core post : List Token) :
    Prop extends Passage ts e.origin.span pre core post where
  bracketing : Bracketing k ts e pre.length post.length

namespace Edged

variable {e l r f : ParsedExpr}

theorem group (ho : opening.kind = .openParen) (h : Edged k ts e pre core post)
    (hc : closing.kind = .closeParen) :
    Edged (k + 1) (opening :: (ts ++ [closing])) e (opening :: pre) core (post ++ [closing]) where
  toPassage := h.toPassage.group ho hc
  bracketing := by
    rw [List.length_cons, List.length_append]
    exact .group ho h.bracketing hc

theorem unary (hop : t.kind ∈ unaryOperators) (h : Edged k us e pre core post) :
    Edged 0 (t :: us) (.unary ⟨t, t.span.cover e.origin.span⟩ t.text e) []
      ([t] ++ (pre ++ core)) post where
  toPassage := h.toPassage.unary t
  bracketing := .unary hop h.bracketing

theorem binary (h : Edged j ts l pre core post) (hop : t.kind.link? = some .binary)
    (h' : Edged k us r pre' core' post') :
    Edged 0 (ts ++ t :: us) (.binary ⟨t, l.origin.span.cover r.origin.span⟩ l t.text r) pre
      (core ++ ((post ++ t :: pre') ++ core')) post' where
  toPassage := h.toPassage.binary t h'.toPassage
  bracketing := .binary h.bracketing hop h'.bracketing

theorem call {es : List ParsedExpr} (h : Edged k ts f pre core post)
    (ho : opening.kind = .openParen) (hes : IsArguments false us es n)
    (hc : closing.kind = .closeParen) :
    Edged 0 (ts ++ opening :: (us ++ [closing]))
      (.call ⟨opening, f.origin.span.cover closing.span⟩ f es) pre
      (core ++ ((post ++ opening :: us) ++ [closing])) [] where
  toPassage := h.toPassage.call opening closing us
  bracketing := .call h.bracketing ho hes hc

/-- Nothing is outside of an expression that begins with a token of its own,
and ends with one. -/
theorem whole (h : IsExpr false .primary ts e n) (hfirst : firstKind .eof ts ≠ .openParen)
    (hspan : e.origin.span = .around ts) : Edged 0 ts e [] ts [] where
  toPassage := by
    obtain ⟨x, rest, rfl, -⟩ := h.first
    rw [hspan]
    exact .whole (List.cons_ne_nil x rest)
  bracketing := .primary h hfirst

end Edged

/-- An expression, with all brackets around it. -/
theorem exists_edged {stratum : Stratum} {ts : List Token} {e : ParsedExpr} {n : Nat}
    (h : IsExpr false stratum ts e n) : ∃ k pre core post, Edged k ts e pre core post := by
  match h with
  | .tighter h => exact exists_edged h
  | .binary hl hop hr =>
    obtain ⟨_, _, _, _, hleft⟩ := exists_edged hl
    obtain ⟨_, _, _, _, hright⟩ := exists_edged hr
    exact ⟨0, _, _, _, hleft.binary (precedence_of_mem_operators hop).2.1 hright⟩
  | .unary hop he =>
    obtain ⟨_, _, _, _, hoperand⟩ := exists_edged he
    exact ⟨0, _, _, _, hoperand.unary hop⟩
  | .call hf hopen hes hclose =>
    obtain ⟨_, _, _, _, hcallee⟩ := exists_edged hf
    exact ⟨0, _, _, _, hcallee.call hopen hes hclose⟩
  -- one bracket more on either side
  | .group ho he hc =>
    obtain ⟨_, _, _, _, hinner⟩ := exists_edged he
    exact ⟨_, _, _, _, hinner.group ho hc⟩
  -- a leaf, or an expression that begins with its keyword
  | h@(.identifier hk) | h@(.integer hk _) | h@(.true hk) | h@(.false hk) =>
    exact ⟨0, _, _, _, .whole h (by rw [firstKind_cons, hk]; decide) rfl⟩
  | h@(.conditional hk _ _ _ _ _ hts) | h@(.function hk _ _ _ _ hts) =>
    exact ⟨0, _, _, _, .whole h (by rw [hts, firstKind_cons, hk]; decide) rfl⟩

/-- The expression can be read, with so many levels to spare, from some of the
tokens, one right behind the other; and of these, the brackets outside of its
span are those around its operands and callees at the edges, and just those that
have no partner within. -/
def Quotable (tokens : List Token) (budget : Nat) (e : ParsedExpr) : Prop :=
  ∃ stratum ts n pre core post, ts <:+: tokens ∧ n ≤ budget ∧ IsExpr false stratum ts e n ∧
    Edged 0 ts e pre core post ∧ unmatched core = ⟨pre.length, post.length⟩

theorem Quotable.mono {m : Nat} {e : ParsedExpr} (h : Quotable ts n e) (hts : ts <:+: us)
    (hle : n ≤ m) : Quotable us m e := by
  obtain ⟨stratum, vs, k, pre, core, post, hvs, hk, hedged⟩ := h
  exact ⟨stratum, vs, k, pre, core, post, hvs.trans hts, Nat.le_trans hk hle, hedged⟩

theorem quotable {stratum : Stratum} {e : ParsedExpr} (h : IsExpr false stratum ts e n)
    (hedged : Edged 0 ts e pre core post)
    (hcore : unmatched core = ⟨pre.length, post.length⟩) : Quotable ts n e :=
  ⟨stratum, ts, n, pre, core, post, List.infix_refl ts, Nat.le_refl n, h, hedged, hcore⟩

/-- Brackets around an expression are not needed to read it. -/
theorem quotable_expr {stratum : Stratum} {ts : List Token} {e : ParsedExpr} {n : Nat}
    (h : IsExpr false stratum ts e n) : Quotable ts n e := by
  match h with
  | .tighter h => exact quotable_expr h
  -- the brackets at the edges are those of the operands, which are matched
  | h@(.binary hl hop hr) =>
    obtain ⟨_, _, _, _, hleft⟩ := exists_edged hl
    obtain ⟨_, _, _, _, hright⟩ := exists_edged hr
    exact quotable h (hleft.binary (precedence_of_mem_operators hop).2.1 hright)
      (hleft.unmatched_binary hright.toPassage (matched_expr hl) (matched_expr hr)
        (matched_operator hop))
  | h@(.unary hop he) =>
    obtain ⟨_, _, _, _, hoperand⟩ := exists_edged he
    exact quotable h (hoperand.unary hop)
      (hoperand.unmatched_unary (matched_expr he) (matched_unaryOperator hop))
  | h@(.call hf hopen hes hclose) =>
    obtain ⟨_, _, _, _, hcallee⟩ := exists_edged hf
    -- the brackets of the arguments are within the span
    have harguments := Matched.between hopen (matched_arguments hes) hclose .nil
    exact quotable h (hcallee.call hopen hes hclose)
      (hcallee.unmatched_call (matched_expr hf) harguments)
  | .group _ he _ =>
    -- the brackets are not among the tokens that are quoted
    exact (quotable_expr he).mono ⟨[_], [_], rfl⟩ (Nat.le_add_left ..)
  | h@(.identifier hk) | h@(.integer hk _) | h@(.true hk) | h@(.false hk) =>
    exact quotable h (.whole h (by rw [firstKind_cons, hk]; decide) rfl) (matched_expr h)
  | h@(.conditional hk _ _ _ _ _ hts) | h@(.function hk _ _ _ _ hts) =>
    exact quotable h (.whole h (by rw [hts, firstKind_cons, hk]; decide) rfl) (matched_expr h)

/-! ### Every expression of a tree -/

/-- The tokens stand among others, one right behind the other, and so many
levels are enough for them. -/
structure Among (tokens : List Token) (budget : Nat) (ts : List Token) (n : Nat) : Prop where
  infix_tokens : ts <:+: tokens
  le_budget : n ≤ budget

namespace Among

variable {budget m : Nat}

theorem of_le (h : Among tokens budget ts n) (hle : m ≤ n) : Among tokens budget ts m :=
  ⟨h.infix_tokens, Nat.le_trans hle h.le_budget⟩

theorem left (h : Among tokens budget (ts ++ us) n) : Among tokens budget ts n :=
  ⟨(List.prefix_append ts us).isInfix.trans h.infix_tokens, h.le_budget⟩

theorem right (h : Among tokens budget (ts ++ us) n) : Among tokens budget us n :=
  ⟨(List.suffix_append ts us).isInfix.trans h.infix_tokens, h.le_budget⟩

theorem head (h : Among tokens budget (t :: ts) n) : Among tokens budget [t] n :=
  ⟨(List.prefix_append [t] ts).isInfix.trans h.infix_tokens, h.le_budget⟩

theorem tail (h : Among tokens budget (t :: ts) n) : Among tokens budget ts n :=
  ⟨(List.suffix_cons t ts).isInfix.trans h.infix_tokens, h.le_budget⟩

end Among

variable {budget : Nat}

/-- An expression can be quoted, and so can a name; of other nodes nothing is said. -/
def QuotableNode (tokens : List Token) (budget : Nat) : Node Origin → Prop
  | .expr e => Quotable tokens budget e
  | .name x => Quotable tokens budget (.identifier x)
  | .block _ | .stmt _ => True

/-- The expression itself, whatever its parts are. -/
theorem Among.quotable {stratum : Stratum} {e : ParsedExpr} (hts : Among tokens budget ts n)
    (h : IsExpr false stratum ts e n) : QuotableNode tokens budget (.expr e) :=
  (quotable_expr h).mono hts.infix_tokens hts.le_budget

/-- A name is an expression of one level, wherever it stands. -/
theorem Among.quotable_name (hts : Among tokens budget (t :: ts) n) (hn : 0 < n)
    (hk : t.kind = .identifier) : QuotableNode tokens budget (.name ⟨.ofToken t, t.text⟩) :=
  (hts.head.of_le hn).quotable (.identifier hk)

theorem quotable_items {names : List (Name Origin)} (h : IsItems IsParameter ts names)
    (hts : Among tokens budget ts n) (hn : 0 < n) :
    ∀ node ∈ names.map Node.name, QuotableNode tokens budget node := by
  induction h with
  | one h =>
    obtain @⟨t, hk⟩ := h
    exact List.forall_mem_singleton.mpr (hts.quotable_name hn hk)
  | more _ _ h ih =>
    obtain @⟨t, hk⟩ := h
    rw [List.map_append, List.forall_mem_append]
    exact ⟨ih hts.left, List.forall_mem_singleton.mpr (hts.right.tail.quotable_name hn hk)⟩

theorem quotable_parameters {names : List (Name Origin)} (h : IsList IsParameter ts names)
    (hts : Among tokens budget ts n) (hn : 0 < n) :
    ∀ node ∈ names.map Node.name, QuotableNode tokens budget node := by
  cases h with
  | none => exact List.forall_mem_nil _
  | items h => exact quotable_items h hts hn

mutual

theorem quotable_nodes_expr {stratum : Stratum} {ts : List Token} {e : ParsedExpr} {n : Nat}
    (h : IsExpr false stratum ts e n) (hts : Among tokens budget ts n) :
    ∀ node ∈ e.nodes, QuotableNode tokens budget node := by
  match h with
  | .tighter h => exact quotable_nodes_expr h hts
  | h@(.binary hl _ hr) =>
    rw [Expr.nodes, List.forall_mem_cons, List.forall_mem_append]
    exact ⟨hts.quotable h, quotable_nodes_expr hl (hts.left.of_le (by omega)),
      quotable_nodes_expr hr (hts.right.tail.of_le (by omega))⟩
  | h@(.unary _ he) =>
    rw [Expr.nodes, List.forall_mem_cons]
    exact ⟨hts.quotable h, quotable_nodes_expr he (hts.tail.of_le (by omega))⟩
  | h@(.call hf _ hes _) =>
    rw [Expr.nodes, List.forall_mem_cons, List.forall_mem_append]
    exact ⟨hts.quotable h, quotable_nodes_expr hf (hts.left.of_le (by omega)),
      quotable_nodes_arguments hes (hts.right.tail.left.of_le (by omega))⟩
  | h@(.identifier _) | h@(.integer _ _) | h@(.true _) | h@(.false _) =>
    rw [Expr.nodes, List.forall_mem_singleton]
    exact hts.quotable h
  -- the group is no node; its brackets cost a level, which is left over
  | .group _ he _ => exact quotable_nodes_expr he (hts.tail.left.of_le (by omega))
  | h@(.conditional _ _ hc _ hb hf hts') =>
    -- what stands behind the keyword and its bracket
    have hinner := (hts' ▸ hts).tail.tail
    rw [Expr.nodes, List.forall_mem_cons, List.forall_mem_append, List.forall_mem_append]
    exact ⟨hts.quotable h, quotable_nodes_expr hc (hinner.left.of_le (by omega)),
      quotable_nodes_block hb (hinner.right.tail.left.of_le (by omega)),
      quotable_nodes_alternative hf (hinner.right.tail.right.of_le (by omega))⟩
  | h@(.function _ _ hxs _ hb hts') =>
    have hinner := (hts' ▸ hts).tail.tail
    rw [Expr.nodes, List.forall_mem_cons, List.forall_mem_append]
    exact ⟨hts.quotable h, quotable_parameters hxs hinner.left h.pos,
      quotable_nodes_block hb (hinner.right.tail.of_le (by omega))⟩

theorem quotable_nodes_arguments {ts : List Token} {es : List ParsedExpr} {n : Nat}
    (h : IsArguments false ts es n) (hts : Among tokens budget ts n) :
    ∀ node ∈ Expr.nodesEach es, QuotableNode tokens budget node := by
  match h with
  | .none => exact List.forall_mem_nil _
  | .one he =>
    rw [Expr.nodesEach_singleton]
    exact quotable_nodes_expr he (hts.of_le (by omega))
  | .more hes _ _ he =>
    rw [Expr.nodesEach_append, List.forall_mem_append, Expr.nodesEach_singleton]
    exact ⟨quotable_nodes_arguments hes (hts.left.of_le (by omega)),
      quotable_nodes_expr he (hts.right.tail.of_le (by omega))⟩

theorem quotable_nodes_alternative {ts : List Token} {f : Option ParsedBlock} {n : Nat}
    (h : IsAlternative false ts f n) (hts : Among tokens budget ts n) :
    ∀ node ∈ Block.nodesElse f, QuotableNode tokens budget node := by
  match h with
  | .none => exact List.forall_mem_nil _
  | .some _ hb => exact quotable_nodes_block hb hts.tail

theorem quotable_nodes_block {ts : List Token} {b : ParsedBlock} {n : Nat}
    (h : IsBlock false ts b n) (hts : Among tokens budget ts n) :
    ∀ node ∈ b.nodes, QuotableNode tokens budget node := by
  match h with
  | .braces _ hs _ =>
    rw [Block.nodes, List.forall_mem_cons]
    exact ⟨trivial, quotable_nodes_stmts hs (hts.tail.left.of_le (by omega))⟩

theorem quotable_nodes_stmt {next : Kind} {ts : List Token} {found : Option ParsedStmt} {n : Nat}
    (h : IsStmt false next ts found n) (hts : Among tokens budget ts n) :
    ∀ node ∈ Stmt.nodesEach found.toList, QuotableNode tokens budget node := by
  match h with
  | .empty _ => exact List.forall_mem_nil _
  | .block hb =>
    rw [Option.toList_some, Stmt.nodesEach_singleton, Stmt.nodes]
    exact quotable_nodes_block hb hts
  -- the name of a binding is quoted as an expression of its own
  | .binding _ hname _ he _ hts' =>
    subst hts'
    rw [Option.toList_some, Stmt.nodesEach_singleton, Stmt.nodes,
      List.forall_mem_cons, List.forall_mem_cons]
    exact ⟨trivial, hts.tail.quotable_name he.pos hname,
      quotable_nodes_expr he hts.tail.tail.tail.left⟩
  | .returning _ he _ hts' =>
    subst hts'
    rw [Option.toList_some, Stmt.nodesEach_singleton, Stmt.nodes, List.forall_mem_cons]
    exact ⟨trivial, quotable_nodes_expr he hts.tail.left⟩
  | .expression he _ hts' _ =>
    subst hts'
    rw [Option.toList_some, Stmt.nodesEach_singleton, Stmt.nodes, List.forall_mem_cons]
    exact ⟨trivial, quotable_nodes_expr he hts.left⟩

theorem quotable_nodes_stmts {next : Kind} {ts : List Token} {ss : List ParsedStmt} {n : Nat}
    (h : IsStmts false next ts ss n) (hts : Among tokens budget ts n) :
    ∀ node ∈ Stmt.nodesEach ss, QuotableNode tokens budget node := by
  match h with
  | .nil => exact List.forall_mem_nil _
  | .cons h hs =>
    rw [Stmt.nodesEach_append, List.forall_mem_append]
    exact ⟨quotable_nodes_stmt h (hts.left.of_le (by omega)),
      quotable_nodes_stmts hs (hts.right.of_le (by omega))⟩

end

end Grammar

end LetFn
