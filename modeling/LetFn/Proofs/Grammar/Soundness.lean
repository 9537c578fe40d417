/-
LetFn/Proofs/Grammar/Soundness.lean

Whatever a parser reads is in the grammar, with the tree that the parser
gives, and within the levels it had to spare; without errors in the grammar
proper, and with errors in the lax one.

The argument follows the parsers.  For each of them there is one lemma that
takes its reading apart, covers the tokens of the parts, and puts the rules
of the grammar together; what is read one level deeper is `Sound` by
assumption, and `sound_within` ties the knot by induction on the levels.

The loop over the links of an expression keeps this invariant: what has been
read so far is an expression of some stratum, at least as tight as asked for,
and the next token binds at most as tightly as that stratum allows.

Main statement: `sound_within`, with `sound_statements` for sequences.
-/
import LetFn.Proofs.Grammar

namespace LetFn

namespace Grammar

open LetFn.Parser

variable {α : Type}
variable {lax : Bool}
variable {inner : Nested} {n : Nat}
variable {s t u : TokenStream} {e : ParsedExpr}

/-- From `s` up to `t` stands an expression of a stratum, with at most `n` levels. -/
def FindsExpr (lax : Bool) (stratum : Stratum) (n : Nat) (s : TokenStream) (e : ParsedExpr)
    (t : TokenStream) : Prop :=
  ∃ ts m, s.Covers ts t ∧ IsExpr lax stratum ts e m ∧ m ≤ n

/-- From `s` up to `t` stands a block, with at most `n` levels. -/
def FindsBlock (lax : Bool) (n : Nat) (s : TokenStream) (b : ParsedBlock) (t : TokenStream) :
    Prop :=
  ∃ ts m, s.Covers ts t ∧ IsBlock lax ts b m ∧ m ≤ n

/-- What is read within `n` levels is in the grammar. -/
structure Sound (lax : Bool) (inner : Nested) (n : Nat) : Prop where
  expression : ∀ {p s e t}, (inner.expression p).Reads lax s e t →
    FindsExpr lax (.above p) n s e t ∧ ¬ p < t.peek.kind.precedence
  block : ∀ {s b t}, s.current.kind = .openCurly → inner.block.Reads lax s b t →
    FindsBlock lax n s b t

/-! ### Leading parts that are one token -/

theorem finds_token {k : Kind} {e : ParsedExpr} (he : IsExpr lax .primary [s.current] e 1)
    (hk : s.current.kind = k) (hne : (k == .eof) = false) :
    FindsExpr lax .primary (n + 1) s e s :=
  ⟨_, 1, .single hk hne, he, Nat.le_add_left ..⟩

theorem finds_identifier (hk : s.current.kind = .identifier) (h : identifier.Reads lax s e t) :
    FindsExpr lax .primary (n + 1) s e t := by
  rw [identifier, reads_current_bind, reads_pure] at h
  obtain ⟨rfl, rfl⟩ := h
  exact finds_token (.identifier hk) hk rfl

theorem finds_integer (hk : s.current.kind = .number) (h : integer.Reads lax s e t) :
    FindsExpr lax .primary (n + 1) s e t := by
  rw [integer, reads_current_bind] at h
  split at h
  · next value hv =>
    obtain ⟨rfl, rfl⟩ := reads_pure.mp h
    exact finds_token (.integer hk hv) hk rfl
  · exact absurd h not_reads_fail

theorem finds_boolean (hk : s.current.kind = .kwTrue ∨ s.current.kind = .kwFalse)
    (h : boolean.Reads lax s e t) : FindsExpr lax .primary (n + 1) s e t := by
  rw [boolean, reads_current_bind, reads_pure] at h
  obtain ⟨rfl, rfl⟩ := h
  rcases hk with hk | hk
  · rw [hk, decide_eq_true rfl]
    exact finds_token (.true hk) hk rfl
  · rw [hk, decide_eq_false (by decide)]
    exact finds_token (.false hk) hk rfl

/-! ### Leading parts with expressions in them -/

theorem finds_unary (hi : Sound lax inner n) (hk : s.current.kind ∈ unaryOperators)
    (h : (unary inner).Reads lax s e t) :
    FindsExpr lax .unary (n + 1) s e t ∧ ¬ Precedence.unary < t.peek.kind.precedence := by
  rw [unary, reads_current_bind, reads_advance_bind, reads_bind] at h
  obtain ⟨r, u, hr, h⟩ := h
  obtain ⟨rfl, rfl⟩ := reads_pure.mp h
  obtain ⟨⟨us, m, hus, hr, hm⟩, hp⟩ := hi.expression hr
  have hne : s.current.kind ≠ .eof := fun he => absurd hk (by rw [he]; decide)
  exact ⟨⟨_, _, hus.cons rfl (beq_false_of_ne hne), .unary hk hr, by omega⟩, hp⟩

theorem finds_group (hi : Sound lax inner n) (hk : s.current.kind = .openParen)
    (h : (group inner).Reads lax s e t) : FindsExpr lax .primary (n + 1) s e t := by
  rw [group, reads_advance_bind, reads_bind] at h
  obtain ⟨e', u, he, h⟩ := h
  rw [reads_expect_bind, reads_pure] at h
  obtain ⟨hclose, rfl, rfl⟩ := h
  obtain ⟨⟨us, m, hus, he, hm⟩, -⟩ := hi.expression he
  exact ⟨_, _, (hus.snoc hclose rfl).cons hk rfl, .group hk he hclose, by omega⟩

/-- The second branch of a conditional that has been read up to `s`. -/
theorem finds_alternative (hi : Sound lax inner n) {ts : List Token} {f : Option ParsedBlock}
    {r : TokenStream} (hr : r.Covers ts s) (h : (alternative inner).Reads lax s f t) :
    ∃ us m, r.Covers (ts ++ us) t ∧ IsAlternative lax us f m ∧ m ≤ n := by
  rw [alternative, reads_peek_bind] at h
  split at h
  · next hk =>
    rw [reads_advance_bind, reads_expect_bind, reads_bind] at h
    obtain ⟨hopen, b, u, hb, h⟩ := h
    obtain ⟨rfl, rfl⟩ := reads_pure.mp h
    obtain ⟨us, m, hus, hb, hm⟩ := hi.block hopen hb
    refine ⟨_, m, ?_, .some hk hb, hm⟩
    exact hr.append (hus.cons (s := s.advance) hk rfl)
  · -- no `else`, and no token is read
    obtain ⟨rfl, rfl⟩ := reads_pure.mp h
    exact ⟨[], 0, by simpa using hr, .none, Nat.zero_le n⟩

theorem finds_conditional (hi : Sound lax inner n) (hk : s.current.kind = .kwIf)
    (h : (conditional inner).Reads lax s e t) : FindsExpr lax .primary (n + 1) s e t := by
  rw [conditional, reads_current_bind, reads_expect_bind, reads_advance_bind, reads_bind] at h
  obtain ⟨hopen, c, u, hc, h⟩ := h
  rw [reads_expect_bind, reads_expect_bind, reads_bind] at h
  obtain ⟨hclose, hcurly, b, v, hb, h⟩ := h
  rw [reads_bind] at h
  obtain ⟨f, w, hf, h⟩ := h
  rw [reads_current_bind, reads_pure] at h
  obtain ⟨rfl, rfl⟩ := h
  obtain ⟨⟨us, k, hus, hc, hk'⟩, -⟩ := hi.expression hc
  obtain ⟨vs, m, hvs, hb, hm⟩ := hi.block hcurly hb
  -- the tokens up to the end of the first branch
  have hthen : s.Covers (s.current :: s.peek :: (us ++ [u.peek] ++ vs)) v :=
    (((hus.snoc hclose rfl).append hvs).cons (s := s.advance) hopen rfl).cons hk rfl
  obtain ⟨ws, l, hws, hf, hl⟩ := finds_alternative hi hthen hf
  refine ⟨_, 1 + max k (max m l), hws, ?_, by omega⟩
  rw [← hws.around]
  exact .conditional hk hopen hc hclose hb hf (by simp)

/-! ### Lists -/

section Lists

variable {item : Parser α} {as : List α} {P : List Token → α → Prop}

/-- Items with commas between them, if the item is read behind the current token. -/
theorem covers_separated
    (hitem : ∀ {s a t}, item.Reads lax s a t → ∃ us, s.advance.Covers us t ∧ P us a)
    (h : (separated .comma (by decide) item).Reads lax s as t) :
    ∃ us, s.advance.Covers us t ∧ IsItems P us as := by
  rw [separated, reads_bind] at h
  obtain ⟨a, u, ha, h⟩ := h
  rw [reads_bind] at h
  obtain ⟨bs, v, hloop, h⟩ := h
  obtain ⟨rfl, rfl⟩ := reads_pure.mp h
  obtain ⟨us, hus, ha⟩ := hitem ha
  -- the loop collects the items in reverse
  have key := hloop.invariant
    (I := fun bs t => ∃ us, s.advance.Covers us t ∧ IsItems P us bs.reverse)
    ⟨us, hus, .one ha⟩ ?_
  · exact key.1
  · rintro bs r cs t ⟨us, hus, hbs⟩ hcomma hstep
    rw [reads_bind] at hstep
    obtain ⟨b, w, hb, h⟩ := hstep
    obtain ⟨rfl, rfl⟩ := reads_pure.mp h
    obtain ⟨vs, hvs, hb⟩ := hitem hb
    have hk : r.peek.kind = .comma := of_decide_eq_true hcomma
    refine ⟨us ++ r.peek :: vs, hus.append (hvs.cons (s := r.advance) hk rfl), ?_⟩
    rw [List.reverse_cons]
    exact .more hbs hk hb

/-- A list between brackets, from the opening one on. -/
theorem covers_listed
    (hitem : ∀ {s a t}, item.Reads lax s a t → ∃ us, s.advance.Covers us t ∧ P us a)
    (h : (listed item).Reads lax s as t) :
    ∃ us, s.advance.Covers (us ++ [t.current]) t ∧ t.current.kind = .closeParen ∧
      IsList P us as := by
  rw [listed, reads_peek_bind] at h
  split at h
  · -- the list is empty
    next hk =>
    rw [reads_advance_bind, reads_pure] at h
    obtain ⟨rfl, rfl⟩ := h
    exact ⟨[], .single (s := s.advance) hk rfl, hk, .none⟩
  · rw [reads_bind] at h
    obtain ⟨bs, u, hbs, h⟩ := h
    rw [reads_expect_bind, reads_pure] at h
    obtain ⟨hclose, rfl, rfl⟩ := h
    obtain ⟨us, hus, hbs⟩ := covers_separated hitem hbs
    exact ⟨us, hus.snoc hclose rfl, hclose, .items hbs⟩

end Lists

theorem covers_parameter {name : Name Origin} (h : parameter.Reads lax s name t) :
    ∃ us, s.advance.Covers us t ∧ IsParameter us name := by
  rw [parameter, reads_expect_bind, reads_pure] at h
  obtain ⟨hk, rfl, rfl⟩ := h
  exact ⟨_, .single (s := s.advance) hk rfl, .name hk⟩

theorem finds_function (hi : Sound lax inner n) (hk : s.current.kind = .kwFn)
    (h : (function inner).Reads lax s e t) : FindsExpr lax .primary (n + 1) s e t := by
  rw [function, reads_current_bind, reads_expect_bind, reads_bind] at h
  obtain ⟨hopen, xs, u, hxs, h⟩ := h
  rw [reads_expect_bind, reads_bind] at h
  obtain ⟨hcurly, b, v, hb, h⟩ := h
  rw [reads_current_bind, reads_pure] at h
  obtain ⟨rfl, rfl⟩ := h
  obtain ⟨us, hus, hclose, hxs⟩ := covers_listed covers_parameter hxs
  obtain ⟨vs, m, hvs, hb, hm⟩ := hi.block hcurly hb
  have hcover : s.Covers (s.current :: s.peek :: (us ++ [u.current] ++ vs)) t :=
    ((hus.append hvs).cons (s := s.advance) hopen rfl).cons hk rfl
  refine ⟨_, 1 + m, hcover, ?_, by omega⟩
  -- the span of a function is that of its tokens
  rw [← hcover.around]
  exact .function hk hopen hxs hclose hb (by simp)

/-! ### Leading parts of every form -/

/-- The leading part of an expression, before a token that binds no tighter
than what may follow it. -/
theorem finds_lead (hi : Sound lax inner n) (h : (lead inner).Reads lax s e t) :
    ∃ stratum : Stratum, FindsExpr lax stratum (n + 1) s e t ∧
      ¬ stratum.bound < t.peek.kind.precedence ∧ 4 ≤ stratum.rank := by
  have primary {k : Kind} : ¬ Stratum.primary.bound < k.precedence := by cases k <;> decide
  rw [lead, reads_current_bind] at h
  split at h
  · next form hform =>
    -- only the kinds that begin an expression are left
    cases hs : s.current.kind
    all_goals rw [hs] at hform; cases hform
    case identifier => exact ⟨_, finds_identifier hs h, primary, by decide⟩
    case number => exact ⟨_, finds_integer hs h, primary, by decide⟩
    case kwTrue => exact ⟨_, finds_boolean (.inl hs) h, primary, by decide⟩
    case kwFalse => exact ⟨_, finds_boolean (.inr hs) h, primary, by decide⟩
    case not | dash =>
      obtain ⟨he, hp⟩ := finds_unary hi (by rw [hs]; decide) h
      exact ⟨_, he, hp, by decide⟩
    case openParen => exact ⟨_, finds_group hi hs h, primary, by decide⟩
    case kwIf => exact ⟨_, finds_conditional hi hs h, primary, by decide⟩
    case kwFn => exact ⟨_, finds_function hi hs h, primary, by decide⟩
  · exact absurd h not_reads_fail

/-! ### Links -/

/-- Arguments that are each read one level deeper. -/
theorem isArguments_of_isItems {us : List Token} {es : List ParsedExpr}
    (h : IsItems (fun ts e => ∃ m, IsExpr lax .equality ts e m ∧ m ≤ n) us es) :
    ∃ m, IsArguments lax us es m ∧ m ≤ n + 1 ∧ es ≠ [] := by
  induction h with
  | one h =>
    obtain ⟨m, he, hm⟩ := h
    exact ⟨1 + m, .one he, by omega, List.cons_ne_nil _ _⟩
  | more _ hk h ih =>
    obtain ⟨k, hes, hk', hne⟩ := ih
    obtain ⟨m, he, hm⟩ := h
    exact ⟨_, .more hes hne hk he, by omega, by simp⟩

theorem isArguments_of_isList {us : List Token} {es : List ParsedExpr}
    (h : IsList (fun ts e => ∃ m, IsExpr lax .equality ts e m ∧ m ≤ n) us es) :
    ∃ m, IsArguments lax us es m ∧ m ≤ n + 1 := by
  cases h with
  | none => exact ⟨0, .none, Nat.zero_le _⟩
  | items h =>
    obtain ⟨m, hes, hm, -⟩ := isArguments_of_isItems h
    exact ⟨m, hes, hm⟩

theorem covers_argument (hi : Sound lax inner n) (h : (argument inner).Reads lax s e t) :
    ∃ us, s.advance.Covers us t ∧ ∃ m, IsExpr lax .equality us e m ∧ m ≤ n := by
  rw [argument, reads_advance_bind] at h
  obtain ⟨⟨us, m, hus, he, hm⟩, -⟩ := hi.expression h
  exact ⟨us, hus, m, he, hm⟩

/-- What has been read of an expression up to `t`: it is of a stratum that is
at least as tight as asked for, and the next token binds no tighter than what
may follow it. -/
def Standing (lax : Bool) (p : Precedence) (n : Nat) (s : TokenStream) (e : ParsedExpr)
    (t : TokenStream) : Prop :=
  ∃ stratum : Stratum, FindsExpr lax stratum n s e t ∧
    ¬ stratum.bound < t.peek.kind.precedence ∧ (Stratum.above p).rank ≤ stratum.rank

theorem standing_binary (hi : Sound lax inner n) {p : Precedence} {l : ParsedExpr}
    (hl : Standing lax p (n + 1) s l t) (hp : p < t.peek.kind.precedence)
    (hlink : t.peek.kind.link? = some .binary)
    (h : (binary inner t.peek.kind.precedence l).Reads lax t.advance e u) :
    Standing lax p (n + 1) s e u := by
  obtain ⟨outer, ⟨ts, m, hts, hl, hm⟩, hbound, -⟩ := hl
  rw [binary, reads_current_bind, reads_advance_bind, reads_bind] at h
  obtain ⟨r, v, hr, h⟩ := h
  obtain ⟨rfl, rfl⟩ := reads_pure.mp h
  obtain ⟨⟨us, k, hus, hr, hk⟩, hnext⟩ := hi.expression hr
  obtain ⟨stratum, hop⟩ := exists_operators hlink
  obtain ⟨hprec, -, hrank, htight⟩ := precedence_of_mem_operators hop
  -- the right operand was read with the precedence of the operator
  rw [← htight] at hr
  rw [hprec] at hbound hp hnext
  have hbounds := stratum.rank_bound
  have houter := outer.rank_bound
  have habove := Stratum.rank_above p
  simp only [Precedence.lt_iff] at hbound hp
  refine ⟨stratum, ⟨ts ++ t.peek :: us, max m (1 + k), ?_, ?_, by omega⟩, hnext, by omega⟩
  · have hne : t.peek.kind ≠ .eof := fun he => by simp [he, Kind.link?] at hlink
    exact hts.append (hus.cons (s := t.advance) rfl (beq_false_of_ne hne))
  · exact .binary (hl.loosen (by omega)) hop hr

theorem standing_call (hi : Sound lax inner n) {p : Precedence} {f : ParsedExpr}
    (hf : Standing lax p (n + 1) s f t) (hk : t.peek.kind = .openParen)
    (h : (call inner f).Reads lax t.advance e u) : Standing lax p (n + 1) s e u := by
  obtain ⟨outer, ⟨ts, m, hts, hf, hm⟩, hbound, hle⟩ := hf
  rw [call, reads_current_bind, reads_bind] at h
  obtain ⟨es, v, hes, h⟩ := h
  rw [reads_current_bind, reads_pure] at h
  obtain ⟨rfl, rfl⟩ := h
  obtain ⟨us, hus, hclose, hes⟩ :=
    covers_listed (P := fun ts e => ∃ m, IsExpr lax .equality ts e m ∧ m ≤ n)
      (covers_argument hi) hes
  obtain ⟨k, hes, hk'⟩ := isArguments_of_isList hes
  have houter := outer.rank_bound
  have habove := Stratum.rank_above p
  rw [hk] at hbound
  simp only [Precedence.lt_iff] at hbound
  -- an opening bracket binds tighter than any operator, so that the callee is no operation
  have hcall : Stratum.call.rank ≤ outer.rank := by
    have hprec : Kind.openParen.precedence.rank = 6 := rfl
    have hrank : Stratum.call.rank = 5 := rfl
    omega
  refine ⟨.call, ⟨ts ++ t.peek :: (us ++ [u.current]), max m k, ?_, ?_, by omega⟩, ?_, ?_⟩
  · exact hts.append (hus.cons (s := t.advance) hk rfl)
  · exact .call (hf.loosen hcall) hk hes hclose
  · cases u.peek.kind <;> decide
  · have hrank : Stratum.call.rank = 5 := rfl
    omega

/-- A link keeps what has been read standing. -/
theorem standing_link (hi : Sound lax inner n) {p : Precedence} {l : ParsedExpr}
    (hl : Standing lax p (n + 1) s l t) (hp : p < t.peek.kind.precedence)
    (h : (link inner l).Reads lax t.advance e u) : Standing lax p (n + 1) s e u := by
  rw [link, reads_current_bind] at h
  split at h
  · next form hform =>
    have hlink : t.peek.kind.link? = some form := hform
    cases form with
    | binary => exact standing_binary hi hl hp hlink h
    | call => exact standing_call hi hl (Kind.link?_eq_call_iff.mp hlink) h
  · next hnone =>
    -- a token that binds at all is a link
    have hsome := (Kind.isSome_link?_iff t.peek.kind).mpr (Nat.lt_of_le_of_lt (Nat.zero_le _) hp)
    have hnone' : t.peek.kind.link? = none := hnone
    simp [hnone'] at hsome

theorem finds_expression (hi : Sound lax inner n) {p : Precedence}
    (h : (Parser.expression inner p).Reads lax s e t) :
    FindsExpr lax (.above p) (n + 1) s e t ∧ ¬ p < t.peek.kind.precedence := by
  rw [Parser.expression, reads_bind] at h
  obtain ⟨l, u, hl, h⟩ := h
  rw [links] at h
  obtain ⟨stratum, hl, hbound, hrank⟩ := finds_lead hi hl
  have habove := Stratum.rank_above p
  have key := h.invariant (I := Standing lax p (n + 1) s) ⟨stratum, hl, hbound, by omega⟩
    fun hr hp hstep => standing_link hi hr (of_decide_eq_true hp) hstep
  obtain ⟨⟨stratum, ⟨ts, m, hts, he, hm⟩, -, hle⟩, hstop⟩ := key
  exact ⟨⟨ts, m, hts, he.loosen hle, hm⟩, by simpa using hstop⟩

/-! ### Statements -/

/-- From `s` up to `t` stands a statement, with at most `n` levels. -/
def FindsStmt (lax : Bool) (n : Nat) (s : TokenStream) (found : Option ParsedStmt)
    (t : TokenStream) : Prop :=
  ∃ ts m, s.Covers ts t ∧ IsStmt lax t.peek.kind ts found m ∧ m ≤ n

/-- How a statement ends behind an expression that takes every link. -/
theorem exists_isEnd {ts : List Token} (h : s.Covers ts t)
    (hp : ¬ Precedence.lowest < t.peek.kind.precedence)
    (hu : u = if t.peek.kind = .semicolon then t.advance else t) :
    ∃ vs, s.Covers (ts ++ vs) u ∧ IsEnd u.peek.kind vs := by
  split at hu
  · next hk =>
    subst hu
    exact ⟨[t.peek], h.snoc hk rfl, .semicolon hk⟩
  · next hk =>
    subst hu
    exact ⟨[], by simpa using h, .none hk (mt mem_continuing_iff.mp hp)⟩

variable {found : Option ParsedStmt} {stmt : ParsedStmt}

/-- The last part of a statement: an expression, a semicolon if there is one, and
what is made of the expression and of the token that comes last. -/
theorem exists_ending {make : ParsedExpr → Token → ParsedStmt} (hi : Sound lax inner n)
    (h : (do
      let e ← inner.expression .lowest
      accept .semicolon
      let last ← current
      return make e last : Parser ParsedStmt).Reads lax s stmt t) :
    ∃ e us vs m, s.Covers (us ++ vs) t ∧ IsExpr lax .equality us e m ∧ m ≤ n ∧
      IsEnd t.peek.kind vs ∧ stmt = make e t.current := by
  rw [reads_bind] at h
  obtain ⟨e, u, he, h⟩ := h
  rw [reads_accept_bind, reads_current_bind, reads_pure] at h
  obtain ⟨rfl, ht⟩ := h
  obtain ⟨⟨us, m, hus, he, hm⟩, hp⟩ := hi.expression he
  obtain ⟨vs, hvs, hend⟩ := exists_isEnd hus hp ht
  exact ⟨e, us, vs, m, hvs, he, hm, hend, by rw [ht]⟩

theorem finds_binding (hi : Sound lax inner n) (hk : s.current.kind = .kwLet)
    (h : (binding inner).Reads lax s stmt t) : FindsStmt lax n s (some stmt) t := by
  rw [binding, reads_current_bind, reads_expect_bind] at h
  obtain ⟨hname, h⟩ := h
  rw [reads_expect_bind, reads_advance_bind] at h
  obtain ⟨hassign, h⟩ := h
  obtain ⟨e, us, vs, m, hvs, he, hm, hend, rfl⟩ := exists_ending hi h
  -- the tokens of the whole binding
  have hcover : s.Covers (s.current :: s.peek :: s.advance.peek :: (us ++ vs)) t :=
    ((hvs.cons (s := s.advance.advance) hassign rfl).cons (s := s.advance) hname rfl).cons hk rfl
  refine ⟨_, m, hcover, ?_, hm⟩
  rw [← hcover.around]
  exact .binding hk hname hassign he hend rfl

theorem finds_returning (hi : Sound lax inner n) (hk : s.current.kind = .kwReturn)
    (h : (returning inner).Reads lax s stmt t) : FindsStmt lax n s (some stmt) t := by
  rw [returning, reads_current_bind, reads_advance_bind] at h
  obtain ⟨e, us, vs, m, hvs, he, hm, hend, rfl⟩ := exists_ending hi h
  have hcover := hvs.cons hk rfl
  refine ⟨_, m, hcover, ?_, hm⟩
  rw [← hcover.around]
  exact .returning hk he hend rfl

theorem finds_expressionStatement (hi : Sound lax inner n)
    (h : (expressionStatement inner).Reads lax s stmt t) : FindsStmt lax n s (some stmt) t := by
  rw [expressionStatement, reads_current_bind] at h
  obtain ⟨e, us, vs, m, hvs, he, hm, hend, rfl⟩ := exists_ending hi h
  refine ⟨_, m, hvs, ?_, hm⟩
  rw [← hvs.around]
  exact .expression he hend rfl hvs.head?

theorem finds_blockStatement (hi : Sound lax inner n) (hk : s.current.kind = .openCurly)
    (h : (blockStatement inner).Reads lax s stmt t) : FindsStmt lax n s (some stmt) t := by
  rw [blockStatement, reads_bind] at h
  obtain ⟨b, u, hb, h⟩ := h
  obtain ⟨rfl, rfl⟩ := reads_pure.mp h
  obtain ⟨ts, m, hts, hb, hm⟩ := hi.block hk hb
  exact ⟨ts, m, hts, .block hb, hm⟩

theorem finds_formed (hi : Sound lax inner n) {form : StatementForm}
    (hk : s.current.kind.statementForm? = some form)
    (h : (formed inner form).Reads lax s stmt t) : FindsStmt lax n s (some stmt) t := by
  cases hs : s.current.kind
  all_goals rw [hs] at hk; cases hk
  case kwLet => exact finds_binding hi hs h
  case kwReturn => exact finds_returning hi hs h
  case openCurly => exact finds_blockStatement hi hs h

theorem finds_statement (hi : Sound lax inner n) (h : (statement inner).Reads lax s found t) :
    FindsStmt lax n s found t := by
  rw [statement, reads_current_bind, reads_announce_bind] at h
  split at h
  · -- an empty statement
    next hk =>
    obtain ⟨rfl, rfl⟩ := reads_pure.mp h
    exact ⟨_, 0, .single hk rfl, .empty hk, Nat.zero_le n⟩
  · split at h
    · next form hform =>
      rw [reads_bind] at h
      obtain ⟨stmt, u, hstmt, h⟩ := h
      obtain ⟨rfl, rfl⟩ := reads_pure.mp h
      exact finds_formed hi hform hstmt
    · rw [reads_bind] at h
      obtain ⟨stmt, u, hstmt, h⟩ := h
      obtain ⟨rfl, rfl⟩ := reads_pure.mp h
      exact finds_expressionStatement hi hstmt

/-! ### Sequences and blocks -/

/-- Skipping that says so ends on the closing brace of the enclosing block. -/
theorem kind_skipStatement {inBlock : Bool} {depth : Nat} {s : TokenStream}
    (h : (skipStatement inBlock depth s).value = true) :
    inBlock = true ∧ (skipStatement inBlock depth s).rest.current.kind = .closeCurly := by
  fun_induction skipStatement inBlock depth s with
  | case1 depth s hstop =>
    -- a closing brace ends skipping in a block only
    have hk : s.current.kind = .closeCurly := of_decide_eq_true h
    rw [hk] at hstop
    have hboth : depth = 0 ∧ inBlock = true := by simpa [stopsOn] using hstop
    exact ⟨hboth.2, hk⟩
  | case2 depth s hstop later hbefore => cases h
  | case3 depth s hstop later hbefore o ih => exact ih h

/-- From `s` up to but excluding the current token of `t` stand statements,
with at most `n` levels. -/
def FindsStmts (lax : Bool) (n : Nat) (s : TokenStream) (ss : List ParsedStmt) (t : TokenStream) :
    Prop :=
  ∃ ts m, s.pending = ts ++ t.pending ∧ t.last = s.last ∧
    IsStmts lax t.current.kind ts ss m ∧ m ≤ n

theorem FindsStmts.cons {ss : List ParsedStmt} (h : FindsStmt lax n s found t)
    (hs : FindsStmts lax n t.advance ss u) : FindsStmts lax n s (found.toList ++ ss) u := by
  obtain ⟨ts, m, hts, hfound, hm⟩ := h
  obtain ⟨us, k, hus, hlast, hss, hk⟩ := hs
  refine ⟨ts ++ us, max m k, ?_, hlast.trans hts.last, .cons ?_ hss, by omega⟩
  · rw [hts.pending, hus, List.append_assoc]
  · rw [TokenStream.peek, TokenStream.kind_current, hus, firstKind_append,
      ← TokenStream.kind_current] at hfound
    exact hfound

/-- Tokens that are left out are not in the way of the statements behind them. -/
theorem FindsStmts.skip {ss : List ParsedStmt} (hlax : lax = true) (hle : t ≤ s)
    (hs : FindsStmts lax n t ss u) : FindsStmts lax n s ss u := by
  obtain ⟨us, k, hus, hlast, hss, hk⟩ := hs
  obtain ⟨ts, hts⟩ := hle.2
  refine ⟨ts ++ us, k, ?_, hlast.trans hle.1, .skip hlax hss, hk⟩
  rw [← hts, hus, List.append_assoc]

theorem FindsStmts.nil : FindsStmts lax n s [] s :=
  ⟨[], 0, rfl, rfl, .nil, Nat.zero_le n⟩

theorem finds_runStatements (hi : Sound lax inner n) (inBlock : Bool)
    (h : lax = false → errorsOf (runStatements inner inBlock s).events = []) :
    FindsStmts lax n s (runStatements inner inBlock s).value (runStatements inner inBlock s).rest ∧
      endsSequence inBlock (runStatements inner inBlock s).rest.current.kind := by
  -- an error is only possible in a lax reading
  have islax {events : List Event} {e : Diagnostic} (he : e ∈ errorsOf events)
      (h : lax = false → errorsOf events = []) : lax = true := by
    cases lax with
    | false => simp [h rfl] at he
    | true => rfl
  fun_induction runStatements inner inBlock s with
  | case1 s hends => exact ⟨.nil, hends⟩
  | case2 s hends o found hv later ih =>
    have hclean (hl : lax = false) : errorsOf o.events = [] ∧ errorsOf later.events = [] := by
      simpa using h hl
    obtain ⟨hlater, hend⟩ := ih fun hl => (hclean hl).2
    exact ⟨.cons (finds_statement hi ⟨hv, rfl, fun hl => (hclean hl).1⟩) hlater, hend⟩
  | case3 s hends o e hv skipped events hstop =>
    obtain ⟨rfl, hk⟩ := kind_skipStatement hstop
    have hlax := islax (e := e) (by simp [events]) h
    refine ⟨FindsStmts.nil.skip hlax ?_, ?_⟩
    · exact TokenStream.le_trans (rest_skipStatement_le ..) ((statement inner).rest_le s)
    · rw [hk]
      rfl
  | case4 s hends o e hv skipped events hstop later ih =>
    -- the statements behind the skipped ones are all that is left
    have hlax := islax (e := e) (by simp [events]) h
    obtain ⟨hlater, hend⟩ := ih fun hl => by simp [hl] at hlax
    refine ⟨hlater.skip hlax ?_, hend⟩
    exact TokenStream.le_trans skipped.rest.advance_le
      (TokenStream.le_trans (rest_skipStatement_le ..) ((statement inner).rest_le s))

theorem finds_block (hi : Sound lax inner n) {b : ParsedBlock} (hk : s.current.kind = .openCurly)
    (h : (Parser.block inner).Reads lax s b t) : FindsBlock lax (n + 1) s b t := by
  rw [Parser.block, reads_current_bind, reads_advance_bind, reads_bind] at h
  obtain ⟨ss, u, hss, h⟩ := h
  rw [reads_current_bind] at h
  split at h
  · next hclose =>
    obtain ⟨rfl, rfl⟩ := reads_pure.mp h
    -- the statements are always a value; their errors show whether all were read
    obtain ⟨hv, hr, hclean⟩ := hss
    obtain ⟨us, m, hus, hlast, hss, hm⟩ := (finds_runStatements hi true hclean).1
    have hvalue : (runStatements inner true s.advance).value = ss := Except.ok.inj hv
    have hrest : (runStatements inner true s.advance).rest = t := hr
    rw [hrest] at hus hlast hss
    rw [hvalue, hclose] at hss
    have hcover := (TokenStream.Covers.before hus hlast hclose rfl).cons hk rfl
    exact ⟨_, _, hcover, .braces hk hss hclose, by omega⟩
  · exact absurd h not_reads_fail

/-! ### All levels -/

theorem not_reads_tooDeep {a : α} : ¬ (Nested.tooDeep : Parser α).Reads lax s a t := by
  rw [Nested.tooDeep, reads_current_bind]
  exact not_reads_fail

/-- Whatever is read within some levels is in the grammar, within these levels. -/
theorem sound_within (lax : Bool) (n : Nat) : Sound lax (Nested.within n) n := by
  induction n with
  | zero => exact ⟨fun h => absurd h not_reads_tooDeep, fun _ h => absurd h not_reads_tooDeep⟩
  | succ n ih => exact ⟨fun h => finds_expression ih h, fun hk h => finds_block ih hk h⟩

end Grammar

end LetFn
