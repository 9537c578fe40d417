/-
LetFn/Proofs/Grammar/Completeness.lean

Whatever is in the grammar is read, with the tree that the grammar gives, as
long as there are levels enough; and if there are not, the run reports that
the nesting is too deep.

The argument follows the rules of the grammar.  For each of them there is one
lemma that says how the parser for the whole passes the tokens if the
parsers for the parts do, and `passes_expr` and its companions put them
together by recursion on the derivation.

The operands of an operator are not read one after the other by the parser
for the whole: its left operand is what the loop over the links has
collected so far.  So an expression passes not by being read, but by leading
the parser to that loop, with the expression in hand (`ExprPasses`).

Main statement: `passes_statements`.
-/
import LetFn.Proofs.Grammar
import LetFn.Proofs.Passing

namespace LetFn

namespace Grammar

open LetFn.Parser TokenStream

variable {k m n : Nat}
variable {stratum : Stratum} {p : Precedence}
variable {s t : TokenStream}
variable {ts us vs ws rest : List Token}
variable {e f l r : ParsedExpr} {b : ParsedBlock}
variable {token keyword opening closing operator : Token}

/-! ### Expressions -/

/-- The tokens make up an expression of a stratum that needs `m` levels: a
parser that asks for nothing tighter comes to its loop over the links with it. -/
structure ExprPasses (stratum : Stratum) (ts : List Token) (e : ParsedExpr) (m : Nat) :
    Prop where
  pos : 0 < m
  passes : ∀ {k p s rest}, (Stratum.above p).rank ≤ stratum.rank → p < .call →
    s.pending = ts ++ rest → ¬ stratum.bound < (firstKind .eof rest).precedence →
    firstKind .eof rest ≠ .kwElse →
    Passes m (k + 1) (Parser.expression (.within k) p) s (links (.within k) p e) (s.Covers ts)

/-- A leading part passes as an expression. -/
theorem ExprPasses.of_lead (hm : 0 < m)
    (h : ∀ {k s rest}, s.pending = ts ++ rest → ¬ stratum.bound < (firstKind .eof rest).precedence →
      firstKind .eof rest ≠ .kwElse →
      Passes m (k + 1) (lead (.within k)) s (pure e) (s.Covers ts)) :
    ExprPasses stratum ts e m where
  pos := hm
  passes _ _ hs hnext helse := (h hs hnext helse).next

theorem outline_links_stop {inner : Nested} (h : ¬ p < s.peek.kind.precedence) :
    (links inner p e).outline s = (pure e : Parser ParsedExpr).outline s := by
  unfold outline
  rw [links, run_foldPeek, if_neg (by simpa using h)]
  rfl

theorem overflows_tooDeep {α : Type} : (Nested.tooDeep : Parser α).Overflows s :=
  ⟨⟨.tooDeep maxNesting, s.current.span.start⟩, rfl, .inl rfl⟩

/-- An expression is read if no link follows it. -/
theorem ExprPasses.inner (h : ExprPasses stratum ts e m)
    (hle : (Stratum.above p).rank ≤ stratum.rank) (hp : p < .call) (hs : s.pending = ts ++ rest)
    (hnext : ¬ stratum.bound < (firstKind .eof rest).precedence)
    (helse : firstKind .eof rest ≠ .kwElse) (hstop : ¬ p < (firstKind .eof rest).precedence) :
    Passes m k ((Nested.within k).expression p) s (pure e) (s.Covers ts) := by
  cases k with
  | zero => exact .inr ⟨h.pos, overflows_tooDeep⟩
  | succ k =>
    refine ((h.passes hle hp hs hnext helse).trans (k := 0) fun t ht => ?_).levels (by omega)
    rw [← ht.kind_peek hs] at hstop
    exact (passes_congr (outline_links_stop hstop)).mpr (.refl ht (Nat.zero_le _))

/-- A whole expression is read before a token that does not continue it. -/
theorem ExprPasses.whole (h : ExprPasses .equality ts e m) (hs : s.pending = ts ++ rest)
    (hstop : ¬ Precedence.lowest < (firstKind .eof rest).precedence)
    (helse : firstKind .eof rest ≠ .kwElse) :
    Passes m k ((Nested.within k).expression .lowest) s (pure e) (s.Covers ts) :=
  h.inner (Nat.le_refl _) (by decide) hs (fun hlt => hstop (Nat.zero_lt_of_lt hlt)) helse hstop

/-- A comma, a closing bracket or a semicolon ends any expression. -/
theorem ExprPasses.closed (h : ExprPasses .equality ts e m) (hs : s.pending = ts ++ rest)
    (hrest : firstKind .eof rest ∈ [Kind.comma, .closeParen, .semicolon]) :
    Passes m k ((Nested.within k).expression .lowest) s (pure e) (s.Covers ts) := by
  have hstop : ¬ Precedence.lowest < (firstKind .eof rest).precedence ∧
      firstKind .eof rest ≠ .kwElse := by
    -- all three kinds bind loosest, and none of them is `else`
    revert hrest
    cases firstKind .eof rest <;> decide
  exact h.whole hs hstop.1 hstop.2

theorem ExprPasses.tighter (h : ExprPasses stratum.tighter ts e m) : ExprPasses stratum ts e m := by
  have hrank : stratum.rank ≤ stratum.tighter.rank := by cases stratum <;> decide
  have hbound := stratum.bound_tighter
  refine ⟨h.pos, fun hle hp hs hnext helse => h.passes (Nat.le_trans hle hrank) hp hs ?_ helse⟩
  rw [Precedence.lt_iff] at hnext ⊢
  omega

/-! ### Expressions that are one token -/

theorem passes_lead {inner : Nested} {q : Parser ParsedExpr} {P : TokenStream → Prop} (form : Lead)
    (h : s.current.kind.lead? = some form) :
    Passes m n (lead inner) s q P ↔ Passes m n (leading inner form) s q P := by
  rw [lead, passes_current_bind, h]

/-- A token that is read as a leading part by itself. -/
theorem ExprPasses.of_token {form : Lead} (hform : token.kind.lead? = some form)
    (h : ∀ {k s}, s.current = token → (leading (.within k) form).Reads false s e s) :
    ExprPasses .primary [token] e 1 := by
  refine .of_lead Nat.one_pos fun {k s rest} hs _ _ => ?_
  obtain rfl : s.current = token := current_of_pending hs
  have hne : s.current.kind ≠ .eof := fun he => by simp [he, Kind.lead?] at hform
  rw [passes_lead form hform]
  have hread : (leading (.within k) form).outline s = (pure e : Parser ParsedExpr).outline s :=
    outline_eq_iff.mpr (h rfl)
  rw [passes_congr hread]
  -- one token needs no more than the level it is on
  exact .refl (.single rfl (beq_false_of_ne hne)) (Nat.le_add_left ..)

theorem ExprPasses.identifier (hk : token.kind = .identifier) :
    ExprPasses .primary [token] (.identifier ⟨.ofToken token, token.text⟩) 1 := by
  refine .of_token (by rw [hk]; rfl) fun hcur => ?_
  subst hcur
  exact reads_current_bind.mpr (reads_pure.mpr ⟨rfl, rfl⟩)

theorem ExprPasses.integer {value : Int} (hk : token.kind = .number)
    (hvalue : Text.integer? token.text = some value) :
    ExprPasses .primary [token] (.integer (.ofToken token) value) 1 := by
  refine .of_token (by rw [hk]; rfl) fun hcur => ?_
  subst hcur
  apply reads_current_bind.mpr
  rw [hvalue]
  exact reads_pure.mpr ⟨rfl, rfl⟩

theorem ExprPasses.boolean {value : Bool} (hk : token.kind = if value then .kwTrue else .kwFalse) :
    ExprPasses .primary [token] (.boolean (.ofToken token) value) 1 := by
  refine .of_token (by rw [hk]; cases value <;> rfl) fun hcur => ?_
  subst hcur
  refine reads_current_bind.mpr (reads_pure.mpr ⟨?_, rfl⟩)
  rw [hk]
  cases value <;> rfl

/-! ### Expressions in expressions -/

theorem ExprPasses.unary (hop : operator.kind ∈ unaryOperators) (he : ExprPasses .unary us e m) :
    ExprPasses .unary (operator :: us)
      (.unary ⟨operator, operator.span.cover e.origin.span⟩ operator.text e) (1 + m) := by
  refine .of_lead (by omega) fun {k s rest} hs hnext helse => ?_
  obtain rfl : s.current = operator := current_of_pending hs
  -- either operator leads such an expression
  have hform : s.current.kind.lead? = some .unary := by
    rcases List.mem_cons.mp hop with h | h
    · rw [h]; rfl
    · rw [List.mem_singleton.mp h]; rfl
  have hne : s.current.kind ≠ .eof := fun he => by simp [he, Kind.lead?] at hform
  rw [passes_lead .unary hform, leading, Parser.unary, passes_current_bind, passes_advance_bind]
  have hin := he.inner (k := k) (Nat.le_refl _) (by decide) (pending_advance_of_pending hs)
    hnext helse hnext
  exact (hin.next.imp fun t ht => ht.cons rfl (beq_false_of_ne hne)).levels (by omega)

theorem ExprPasses.group (hopen : opening.kind = .openParen) (he : ExprPasses .equality us e m)
    (hclose : closing.kind = .closeParen) :
    ExprPasses .primary (opening :: (us ++ [closing])) e (1 + m) := by
  refine .of_lead (by omega) fun {k s rest} hs _ _ => ?_
  replace hs : s.pending = opening :: (us ++ closing :: rest) := by simpa using hs
  obtain rfl : s.current = opening := current_of_pending hs
  have hadv := pending_advance_of_pending hs
  rw [passes_lead .group (by rw [hopen]; rfl), leading, Parser.group, passes_advance_bind]
  have hin := he.closed (k := k) hadv (by simp [hclose])
  refine (hin.last fun t ht => ?_).levels (by omega)
  obtain rfl : t.peek = closing := current_of_pending (ht.pending_advance hadv)
  rw [passes_expect_bind hclose]
  exact .refl ((ht.snoc hclose rfl).cons hopen rfl) (Nat.zero_le k)

/-! ### Lists -/

section Lists

variable {α : Type} {item : Parser α} {a : α} {as : List α} {q : Parser (List α)}
variable {P Q : TokenStream → Prop}

/-- The items behind those in hand, which are in reverse. -/
def moreItems (item : Parser α) (before : List α) : Parser (List α) := do
  let items ← foldPeek (· = Kind.comma) (by decide)
    (fun before => do return (← item) :: before) before
  return items.reverse

theorem passes_separated (h : Passes m n item s (pure a) P) :
    Passes m n (separated .comma (by decide) item) s (moreItems item [a]) P :=
  h.next

theorem passes_moreItems_comma (hk : s.peek.kind = .comma)
    (h : Passes m n item s.advance (pure a) P) :
    Passes m n (moreItems item as) s (moreItems item (a :: as)) P := by
  rw [moreItems, passes_foldPeek (by rw [hk]; rfl), bind_assoc]
  simp only [pure_bind]
  exact h.next

theorem outline_moreItems_stop (hk : s.peek.kind ≠ .comma) :
    (moreItems item as).outline s = (pure as.reverse : Parser (List α)).outline s := by
  apply outline_bind_of_outline
  unfold outline
  rw [run_foldPeek, if_neg (by simpa using hk)]
  rfl

/-- The tokens make up an item that is read before a comma or a closing bracket. -/
structure ItemPasses (item : Parser α) (m n : Nat) (us : List Token) (a : α) : Prop where
  first : ∃ x rest, us = x :: rest ∧ x.kind ≠ .closeParen
  passes : ∀ {s rest}, s.advance.pending = us ++ rest →
    firstKind .eof rest = .comma ∨ firstKind .eof rest = .closeParen →
    Passes m n item s (pure a) (s.advance.Covers us)

/-- The tokens make up some items: before a comma or a closing bracket, they
lead to the loop over further items. -/
structure ItemsPass (item : Parser α) (m n : Nat) (us : List Token) (as : List α) : Prop where
  first : ∃ x rest, us = x :: rest ∧ x.kind ≠ .closeParen
  passes : ∀ {s rest}, s.advance.pending = us ++ rest →
    firstKind .eof rest = .comma ∨ firstKind .eof rest = .closeParen →
    Passes m n (separated .comma (by decide) item) s (moreItems item as.reverse)
      (s.advance.Covers us)

theorem ItemsPass.one (h : ItemPasses item m n us a) : ItemsPass item m n us [a] :=
  ⟨h.first, fun hs hrest => passes_separated (h.passes hs hrest)⟩

theorem ItemsPass.more {m' : Nat} {comma : Token} (h : ItemsPass item m n ts as)
    (hk : comma.kind = .comma) (h' : ItemPasses item m' n us a) :
    ItemsPass item (max m m') n (ts ++ comma :: us) (as ++ [a]) := by
  constructor
  · obtain ⟨x, rest, rfl, hx⟩ := h.first
    exact ⟨x, _, rfl, hx⟩
  · intro s rest hs hrest
    rw [List.append_assoc] at hs
    apply (h.passes hs (.inl hk)).trans
    intro t ht
    have hpend := ht.pending_advance hs
    -- behind the items stands the comma, and one more turn of the loop
    obtain rfl : t.peek = comma := current_of_pending hpend
    rw [List.reverse_append]
    have hadv := pending_advance_of_pending hpend
    refine passes_moreItems_comma hk ((h'.passes (s := t.advance) hadv hrest).imp fun u hu => ?_)
    exact ht.append (hu.cons (s := t.advance) hk rfl)

/-- The whole list, from the opening bracket on. -/
theorem ItemsPass.listed (h : ItemsPass item m n us as)
    (hs : s.advance.pending = us ++ closing :: rest) (hclose : closing.kind = .closeParen) :
    Passes m n (listed item) s (pure as) (s.advance.Covers (us ++ [closing])) := by
  have hpeek : s.peek.kind ≠ .closeParen := by
    obtain ⟨x, xs, rfl, hx⟩ := h.first
    rw [TokenStream.peek, current_of_pending hs]
    exact hx
  have hitems :
      Passes m n (separated .comma (by decide) item) s (pure as) (s.advance.Covers us) := by
    refine ((h.passes hs (.inr hclose)).trans (k := 0) fun t ht => ?_).levels (by omega)
    -- the loop over further items ends at the closing bracket
    have hstop : t.peek.kind ≠ .comma := by
      rw [ht.kind_peek hs, firstKind_cons, hclose]
      decide
    rw [passes_congr (outline_moreItems_stop hstop), List.reverse_reverse]
    exact .refl ht (Nat.zero_le n)
  rw [Parser.listed, passes_peek_bind, if_neg hpeek]
  apply hitems.last
  intro t ht
  obtain rfl : t.peek = closing := current_of_pending (ht.pending_advance hs)
  rw [passes_expect_bind hclose]
  exact .refl (ht.snoc hclose rfl) (Nat.zero_le n)

/-- The empty list, from the opening bracket on. -/
theorem passes_listed_nil (hs : s.advance.pending = closing :: rest)
    (hclose : closing.kind = .closeParen) :
    Passes 0 n (listed item) s (pure []) (s.advance.Covers [closing]) := by
  obtain rfl : s.peek = closing := current_of_pending hs
  rw [listed, passes_peek_bind, if_pos hclose, passes_advance_bind]
  exact .refl (.single (s := s.advance) hclose rfl) (Nat.zero_le n)

end Lists

/-! ### Functions -/

theorem itemPasses_parameter {name : Name Origin} (h : IsParameter us name) :
    ItemPasses parameter 0 n us name := by
  obtain @⟨token, hk⟩ := h
  refine ⟨⟨token, [], rfl, by rw [hk]; decide⟩, fun {s rest} hs _ => ?_⟩
  obtain rfl : s.peek = token := current_of_pending hs
  rw [parameter, passes_expect_bind hk]
  exact .refl (.single (s := s.advance) hk rfl) (Nat.zero_le n)

theorem itemsPass_parameters {names : List (Name Origin)} (h : IsItems IsParameter us names) :
    ItemsPass parameter 0 n us names := by
  induction h with
  | one h => exact .one (itemPasses_parameter h)
  | more _ hk h ih => exact ih.more hk (itemPasses_parameter h)

theorem passes_parameters {names : List (Name Origin)} (h : IsList IsParameter us names)
    (hs : s.advance.pending = us ++ closing :: rest) (hclose : closing.kind = .closeParen) :
    Passes 0 n (listed parameter) s (pure names) (s.advance.Covers (us ++ [closing])) := by
  cases h with
  | none => exact passes_listed_nil hs hclose
  | items h => exact (itemsPass_parameters h).listed hs hclose

/-- The tokens make up a block that needs `m` levels. -/
structure BlockPasses (ts : List Token) (b : ParsedBlock) (m : Nat) : Prop where
  first : ∃ x rest, ts = x :: rest ∧ x.kind = .openCurly
  passes : ∀ {k s rest}, s.pending = ts ++ rest →
    Passes m k (Nested.within k).block s (pure b) (s.Covers ts)

/-- Such a block is read where its opening brace is expected. -/
theorem BlockPasses.expected {α : Type} {g : ParsedBlock → Parser α} {q : Parser α}
    {P : TokenStream → Prop} (h : BlockPasses ts b m) (hs : s.advance.pending = ts ++ rest)
    (h' : ∀ t, s.advance.Covers ts t → Passes n k (g b) t q P) :
    Passes (max m n) k (expect .openCurly >>= fun _ => (Nested.within k).block >>= g) s q P := by
  obtain ⟨x, us, rfl, hx⟩ := h.first
  obtain rfl : s.peek = x := current_of_pending hs
  rw [passes_expect_bind hx]
  exact (h.passes hs).bind h'

theorem ExprPasses.function {names : List (Name Origin)} (hfn : keyword.kind = .kwFn)
    (hopen : opening.kind = .openParen) (hnames : IsList IsParameter us names)
    (hclose : closing.kind = .closeParen) (hb : BlockPasses vs b m)
    (hts : ts = keyword :: opening :: (us ++ closing :: vs)) :
    ExprPasses .primary ts (.function ⟨keyword, .around ts⟩ names b) (1 + m) := by
  refine .of_lead (by omega) fun {k s rest} hs _ _ => ?_
  subst hts
  replace hs : s.pending = keyword :: opening :: (us ++ closing :: (vs ++ rest)) := by
    simpa using hs
  obtain rfl : s.current = keyword := current_of_pending hs
  have hadv := pending_advance_of_pending hs
  obtain rfl : s.peek = opening := current_of_pending hadv
  have hadv := pending_advance_of_pending hadv
  -- the keyword and the opening bracket are there, and the parameters follow
  rw [passes_lead .function (by rw [hfn]; rfl), leading, Parser.function, passes_current_bind,
    passes_expect_bind hopen]
  have hlist := passes_parameters (n := k) hnames (s := s.advance) hadv hclose
  refine (hlist.bind (k := m) fun t ht => ?_).levels (by omega)
  have hpend : t.advance.pending = vs ++ rest := ht.pending_advance (by simpa using hadv)
  refine (hb.expected (n := 0) hpend fun u hu => ?_).levels (by omega)
  have hcover : s.Covers (s.current :: s.peek :: (us ++ [closing] ++ vs)) u :=
    ((ht.append hu).cons (s := s.advance) hopen rfl).cons hfn rfl
  rw [List.append_assoc, List.singleton_append] at hcover
  rw [passes_current_bind, ← hcover.around]
  exact .refl hcover (Nat.zero_le k)

/-! ### Conditionals -/

/-- The tokens make up the second branch of a conditional that is read up to
them; no further `else` may follow. -/
def AlternativePasses (ws : List Token) (f : Option ParsedBlock) (m : Nat) : Prop :=
  ∀ {k} {r s : TokenStream} {ts rest}, r.Covers ts s → s.advance.pending = ws ++ rest →
    firstKind .eof rest ≠ .kwElse →
    Passes m k (alternative (.within k)) s (pure f) (r.Covers (ts ++ ws))

theorem AlternativePasses.none : AlternativePasses [] none 0 := by
  intro k r s ts rest hr hs helse
  have hne : s.peek.kind ≠ .kwElse := by
    rw [TokenStream.peek, kind_current, hs]
    exact helse
  rw [alternative, passes_peek_bind, if_neg hne, List.append_nil]
  exact .refl hr (Nat.zero_le k)

theorem AlternativePasses.some (hk : keyword.kind = .kwElse) (hb : BlockPasses vs b m) :
    AlternativePasses (keyword :: vs) (some b) m := by
  intro k r s ts rest hr hs _
  obtain rfl : s.peek = keyword := current_of_pending hs
  have hadv : s.advance.advance.pending = vs ++ rest := pending_advance_of_pending hs
  rw [alternative, passes_peek_bind, if_pos hk, passes_advance_bind]
  refine (hb.expected (n := 0) hadv fun t ht => ?_).levels (by omega)
  exact .refl (hr.append (ht.cons (s := s.advance) hk rfl)) (Nat.zero_le k)

theorem ExprPasses.conditional {f : Option ParsedBlock} (hif : keyword.kind = .kwIf)
    (hopen : opening.kind = .openParen) (hc : ExprPasses .equality us e k)
    (hclose : closing.kind = .closeParen) (hb : BlockPasses vs b m)
    (hf : AlternativePasses ws f n)
    (hts : ts = keyword :: opening :: (us ++ closing :: (vs ++ ws))) :
    ExprPasses .primary ts (.conditional ⟨keyword, .around ts⟩ e b f) (1 + max k (max m n)) := by
  refine .of_lead (by omega) fun {K s rest} hs _ helse => ?_
  subst hts
  replace hs : s.pending = keyword :: opening :: (us ++ closing :: (vs ++ (ws ++ rest))) := by
    simpa using hs
  obtain rfl : s.current = keyword := current_of_pending hs
  have hadv := pending_advance_of_pending hs
  obtain rfl : s.peek = opening := current_of_pending hadv
  have hadv := pending_advance_of_pending hadv
  -- the keyword and the opening bracket are there, and the condition follows
  rw [passes_lead .conditional (by rw [hif]; rfl), leading, Parser.conditional, passes_current_bind,
    passes_expect_bind hopen, passes_advance_bind]
  have hcond := hc.closed (k := K) hadv (by simp [hclose])
  refine (hcond.bind fun t ht => ?_).levels (m := max k (max m n)) (by omega)
  have hpend := ht.pending_advance hadv
  obtain rfl : t.peek = closing := current_of_pending hpend
  rw [passes_expect_bind hclose]
  apply hb.expected (pending_advance_of_pending hpend)
  intro u hu
  have hthen : s.Covers (s.current :: s.peek :: (us ++ [t.peek] ++ vs)) u :=
    (((ht.snoc hclose rfl).append hu).cons (s := s.advance) hopen rfl).cons hif rfl
  rw [List.append_assoc, List.singleton_append] at hthen
  have hpend := hu.pending_advance (pending_advance_of_pending hpend)
  -- the second branch is read from the end of the first one on
  apply (hf hthen hpend helse).last
  intro v hv
  have hcover : s.Covers (s.current :: s.peek :: (us ++ t.peek :: (vs ++ ws))) v := by
    simpa using hv
  rw [passes_current_bind, ← hcover.around]
  exact .refl hcover (Nat.zero_le K)

/-! ### Links -/

/-- Where a link follows that binds tighter than asked for, it is read. -/
theorem passes_links {inner : Nested} {q : Parser ParsedExpr} {P : TokenStream → Prop}
    (form : Link) (hlink : s.peek.kind.link? = some form) (hp : p < s.peek.kind.precedence) :
    Passes m n (links inner p e) s q P ↔
      Passes m n (linked inner s.peek.kind.precedence e form >>= links inner p) s.advance q P := by
  have hcur : s.advance.current.kind.link? = some form := hlink
  rw [← bind_pure (links inner p e), links, passes_foldPeek (by simpa using hp)]
  simp only [bind_pure]
  -- the loop takes one step, and what that is depends on the token behind the current one
  show Passes m n (link inner e >>= links inner p) s.advance q P ↔ _
  rw [link, bind_assoc, passes_current_bind, hcur]
  rfl

/-- The right operand of an operator, from behind it on. -/
theorem ExprPasses.operand (hr : ExprPasses stratum.tighter us r n)
    (hop : operator.kind ∈ stratum.operators) (hs : s.pending = us ++ rest)
    (hnext : ¬ stratum.bound < (firstKind .eof rest).precedence)
    (helse : firstKind .eof rest ≠ .kwElse) :
    Passes n k ((Nested.within k).expression operator.kind.precedence) s (pure r)
      (s.Covers us) := by
  obtain ⟨hprec, -, hrank, htighter⟩ := precedence_of_mem_operators hop
  have hbound := stratum.rank_bound
  have hbound' := stratum.bound_tighter
  -- the operand is of the stratum above the operator, and what follows binds no tighter
  have htight : (Stratum.above operator.kind.precedence).rank ≤ stratum.tighter.rank :=
    Nat.le_of_eq (congrArg Stratum.rank htighter.symm)
  have hcall : operator.kind.precedence < .call := by
    rw [hprec, Precedence.lt_iff]
    show stratum.bound.rank < 6
    omega
  have hnext' : ¬ stratum.tighter.bound < (firstKind .eof rest).precedence := by
    rw [Precedence.lt_iff] at hnext ⊢
    omega
  exact hr.inner htight hcall hs hnext' helse (hprec ▸ hnext)

theorem ExprPasses.binary (hl : ExprPasses stratum ts l m) (hop : operator.kind ∈ stratum.operators)
    (hr : ExprPasses stratum.tighter us r n) :
    ExprPasses stratum (ts ++ operator :: us)
      (.binary ⟨operator, l.origin.span.cover r.origin.span⟩ l operator.text r)
      (max m (1 + n)) := by
  refine ⟨Nat.lt_of_lt_of_le hl.pos (Nat.le_max_left ..), ?_⟩
  intro k p s rest hle hp hs hnext helse
  obtain ⟨hprec, hlink, hrank, -⟩ := precedence_of_mem_operators hop
  rw [List.append_assoc] at hs
  -- the left operand ends before the operator, which binds no tighter than its stratum
  refine (hl.passes hle hp hs ?_ ?_).trans fun t ht => ?_
  · rw [List.cons_append, firstKind_cons, hprec]
    exact Nat.lt_irrefl _
  · intro h
    rw [List.cons_append, firstKind_cons] at h
    rw [h] at hlink
    cases hlink
  · have hpend := ht.pending_advance hs
    obtain rfl : t.peek = operator := current_of_pending hpend
    have hlt : p < t.peek.kind.precedence := by
      have habove := Stratum.rank_above p
      have hbound := stratum.rank_bound
      rw [hprec, Precedence.lt_iff]
      omega
    rw [passes_links .binary hlink hlt, linked, Parser.binary, bind_assoc, passes_current_bind,
      bind_assoc, passes_advance_bind, bind_assoc]
    have hright := hr.operand (k := k) hop (pending_advance_of_pending hpend) hnext helse
    -- further links are left to the loop
    refine (hright.next.imp fun u hu => ?_).levels (by omega)
    refine ht.append (hu.cons (s := t.advance) rfl (beq_false_of_ne fun he => ?_))
    rw [TokenStream.peek, he] at hlink
    cases hlink

/-! ### Calls -/

theorem itemPasses_argument (he : ExprPasses .equality us e m)
    (hfirst : ∃ x rest, us = x :: rest ∧ x.kind.lead?.isSome) :
    ItemPasses (argument (.within k)) (1 + m) (k + 1) us e := by
  obtain ⟨x, xs, rfl, hx⟩ := hfirst
  refine ⟨⟨x, xs, rfl, fun h => ?_⟩, fun {s rest} hs hrest => ?_⟩
  · rw [h] at hx
    cases hx
  · rw [argument, passes_advance_bind]
    have hclosed : firstKind .eof rest ∈ [Kind.comma, .closeParen, .semicolon] := by
      rcases hrest with h | h
      · simp [h]
      · simp [h]
    exact (he.closed hs hclosed).levels (by omega)

/-- The tokens make up the arguments of a call that needs `m` levels for them. -/
def ArgumentsPass (us : List Token) (es : List ParsedExpr) (m : Nat) : Prop :=
  ∀ k, ItemsPass (argument (.within k)) m (k + 1) us es

theorem ArgumentsPass.one (he : ExprPasses .equality us e m)
    (hfirst : ∃ x rest, us = x :: rest ∧ x.kind.lead?.isSome) : ArgumentsPass us [e] (1 + m) :=
  fun _ => .one (itemPasses_argument he hfirst)

theorem ArgumentsPass.more {comma : Token} {es : List ParsedExpr} (hes : ArgumentsPass ts es m)
    (hk : comma.kind = .comma) (he : ExprPasses .equality us e n)
    (hfirst : ∃ x rest, us = x :: rest ∧ x.kind.lead?.isSome) :
    ArgumentsPass (ts ++ comma :: us) (es ++ [e]) (max m (1 + n)) :=
  fun k => (hes k).more hk (itemPasses_argument he hfirst)

theorem ExprPasses.call {es : List ParsedExpr} (hf : ExprPasses .call ts f m)
    (hopen : opening.kind = .openParen) (hes : es = [] ∧ us = [] ∧ n = 0 ∨ ArgumentsPass us es n)
    (hclose : closing.kind = .closeParen) :
    ExprPasses .call (ts ++ opening :: (us ++ [closing]))
      (.call ⟨opening, f.origin.span.cover closing.span⟩ f es) (max m n) := by
  refine ⟨Nat.lt_of_lt_of_le hf.pos (Nat.le_max_left ..), ?_⟩
  intro k p s rest hle hp hs hnext helse
  replace hs : s.pending = ts ++ (opening :: (us ++ closing :: rest)) := by simpa using hs
  refine (hf.passes hle hp hs ?_ ?_).trans fun t ht => ?_
  · rw [firstKind_cons, hopen]
    decide
  · rw [firstKind_cons, hopen]
    decide
  · have hpend := ht.pending_advance hs
    obtain rfl : t.peek = opening := current_of_pending hpend
    have hadv := pending_advance_of_pending hpend
    rw [passes_links .call (by rw [hopen]; rfl) (by rw [hopen]; exact hp), linked,
      Parser.call, bind_assoc, passes_current_bind, bind_assoc]
    have hlist : Passes n (k + 1) (listed (argument (.within k))) t.advance (pure es)
        (t.advance.advance.Covers (us ++ [closing])) := by
      -- without arguments the brackets follow each other
      rcases hes with ⟨rfl, rfl, rfl⟩ | hes
      · exact passes_listed_nil hadv hclose
      · exact (hes k).listed hadv hclose
    apply hlist.last
    intro u hu
    -- the span of a call ends with its closing bracket
    have hlast : u.current = closing := by simpa using hu.getLast?.symm
    rw [bind_assoc, passes_current_bind, hlast, pure_bind]
    exact .refl (ht.append (hu.cons (s := t.advance) hopen rfl)) (Nat.zero_le _)

/-! ### Statements -/

/-- The tokens, before one of kind `next`, make up a statement that needs `m` levels. -/
def StmtPasses (next : Kind) (ts : List Token) (found : Option ParsedStmt) (m : Nat) : Prop :=
  ∀ {k s rest}, s.pending = ts ++ rest → firstKind .eof rest = next → next ≠ .kwElse →
    Passes m k (statement (.within k)) s (pure found) (s.Covers ts)

variable {next : Kind}

/-- The end of a statement, which an expression comes before. -/
theorem passes_end {α : Type} {g : Unit → Parser α} {q : Parser α} {P : TokenStream → Prop}
    (h : IsEnd next vs) (ht : s.Covers us t) (hs : s.pending = us ++ (vs ++ rest))
    (hnext : firstKind .eof rest = next)
    (h' : ∀ u, s.Covers (us ++ vs) u → Passes m n (g ()) u q P) :
    Passes m n (accept .semicolon >>= g) t q P := by
  rw [passes_accept_bind, ht.kind_peek hs, firstKind_append, hnext]
  cases h with
  | semicolon hk =>
    obtain rfl : t.peek = _ := current_of_pending (ht.pending_advance hs)
    rw [firstKind_cons, if_pos hk]
    exact h' _ (ht.snoc hk rfl)
  | none hsemi _ =>
    rw [firstKind_nil, if_neg hsemi]
    exact h' _ (by simpa using ht)

/-- An expression that a statement ends with is read as a whole. -/
theorem ExprPasses.ended (he : ExprPasses .equality us e m) (hend : IsEnd next vs)
    (hs : s.pending = us ++ (vs ++ rest)) (hnext : firstKind .eof rest = next)
    (helse : next ≠ .kwElse) :
    Passes m k ((Nested.within k).expression .lowest) s (pure e) (s.Covers us) := by
  cases hend with
  | semicolon hk =>
    exact he.closed hs (by simp [hk])
  | none _ hcont =>
    subst hnext
    exact he.whole hs (mt mem_continuing_iff.mpr hcont) helse

/-- The last part of a statement, and what is made of it. -/
theorem passes_ending {make : ParsedExpr → Token → ParsedStmt} {stmt : ParsedStmt}
    {P : TokenStream → Prop} (he : ExprPasses .equality us e m) (hend : IsEnd next vs)
    (hs : s.pending = us ++ (vs ++ rest)) (hnext : firstKind .eof rest = next)
    (helse : next ≠ .kwElse)
    (h : ∀ u, s.Covers (us ++ vs) u → make e u.current = stmt ∧ P u) :
    Passes m k (do
      let e ← (Nested.within k).expression .lowest
      accept .semicolon
      let last ← current
      return make e last) s (pure stmt) P := by
  apply (he.ended hend hs hnext helse).last
  intro t ht
  apply passes_end hend ht hs hnext
  intro u hu
  obtain ⟨rfl, hu⟩ := h u hu
  rw [passes_current_bind]
  exact .refl hu (Nat.zero_le k)

theorem StmtPasses.empty (hk : token.kind = .semicolon) : StmtPasses next [token] none 0 := by
  intro k s rest hs _ _
  obtain rfl : s.current = token := current_of_pending hs
  rw [statement, passes_current_bind, passes_announce_bind, if_pos hk]
  exact .refl (.single hk rfl) (Nat.zero_le k)

theorem passes_formed {inner : Nested} {stmt : ParsedStmt} {P : TokenStream → Prop}
    (form : StatementForm) (hform : s.current.kind.statementForm? = some form)
    (h : Passes m n (formed inner form) s (pure stmt) P) :
    Passes m n (statement inner) s (pure (some stmt)) P := by
  have hne : s.current.kind ≠ .semicolon := fun he => by simp [he, Kind.statementForm?] at hform
  rw [statement, passes_current_bind, passes_announce_bind, if_neg hne, hform]
  exact h.next

theorem StmtPasses.block (hb : BlockPasses ts b m) : StmtPasses next ts (some (.block b)) m := by
  intro k s rest hs _ _
  obtain ⟨x, xs, rfl, hx⟩ := hb.first
  obtain rfl : s.current = x := current_of_pending hs
  apply passes_formed .block (by rw [hx]; rfl)
  rw [formed, blockStatement]
  exact (hb.passes hs).next

theorem StmtPasses.binding {name assignment : Token} (hlet : keyword.kind = .kwLet)
    (hname : name.kind = .identifier) (hassign : assignment.kind = .assignment)
    (he : ExprPasses .equality us e m) (hend : IsEnd next vs)
    (hts : ts = keyword :: name :: assignment :: (us ++ vs)) :
    StmtPasses next ts (some (.binding ⟨keyword, .around ts⟩ ⟨.ofToken name, name.text⟩ e)) m := by
  intro k s rest hs hnext helse
  subst hts
  replace hs : s.pending = keyword :: name :: assignment :: (us ++ (vs ++ rest)) := by
    simpa using hs
  obtain rfl : s.current = keyword := current_of_pending hs
  have hadv := pending_advance_of_pending hs
  obtain rfl : s.peek = name := current_of_pending hadv
  have hadv := pending_advance_of_pending hadv
  obtain rfl : s.advance.peek = assignment := current_of_pending hadv
  have hadv := pending_advance_of_pending hadv
  apply passes_formed .binding (by rw [hlet]; rfl)
  rw [formed, Parser.binding, passes_current_bind, passes_expect_bind hname,
    passes_expect_bind hassign, passes_advance_bind]
  -- the tokens in front of the value have been read one by one
  apply passes_ending he hend hadv hnext helse
  intro u hu
  -- the span of a binding is that of its tokens
  have hcover : s.Covers (s.current :: s.peek :: s.advance.peek :: (us ++ vs)) u :=
    ((hu.cons (s := s.advance.advance) hassign rfl).cons (s := s.advance) hname rfl).cons hlet rfl
  exact ⟨by rw [hcover.around], hcover⟩

theorem StmtPasses.returning (hreturn : keyword.kind = .kwReturn) (he : ExprPasses .equality us e m)
    (hend : IsEnd next vs) (hts : ts = keyword :: (us ++ vs)) :
    StmtPasses next ts (some (.returning ⟨keyword, .around ts⟩ e)) m := by
  intro k s rest hs hnext helse
  subst hts
  replace hs : s.pending = keyword :: (us ++ (vs ++ rest)) := by simpa using hs
  obtain rfl : s.current = keyword := current_of_pending hs
  have hadv := pending_advance_of_pending hs
  apply passes_formed .returning (by rw [hreturn]; rfl)
  rw [formed, Parser.returning, passes_current_bind, passes_advance_bind]
  apply passes_ending he hend hadv hnext helse
  intro u hu
  have hcover := hu.cons hreturn rfl
  exact ⟨by rw [hcover.around], hcover⟩

theorem StmtPasses.expression {first : Token} (he : ExprPasses .equality us e m)
    (hlead : ∃ x rest, us = x :: rest ∧ x.kind.lead?.isSome) (hend : IsEnd next vs)
    (hts : ts = us ++ vs) (hfirst : ts.head? = some first) :
    StmtPasses next ts (some (.expression ⟨first, .around ts⟩ e)) m := by
  intro k s rest hs hnext helse
  subst hts
  rw [List.append_assoc] at hs
  obtain ⟨x, xs, rfl, hx⟩ := hlead
  obtain rfl : s.current = x := current_of_pending hs
  obtain rfl : s.current = first := by simpa using hfirst
  have hform : s.current.kind.statementForm? = none ∧ s.current.kind ≠ .semicolon := by
    -- no token that begins an expression begins another statement
    revert hx
    cases s.current.kind <;> decide
  rw [statement, passes_current_bind, passes_announce_bind, if_neg hform.2, hform.1]
  apply Passes.next (P := s.Covers (s.current :: xs ++ vs))
  rw [expressionStatement, passes_current_bind]
  apply passes_ending he hend hs hnext helse
  intro u hu
  exact ⟨by rw [hu.around], hu⟩

/-! ### Sequences and blocks -/

/-- The tokens, before one of kind `next`, make up statements that need `m` levels. -/
def StmtsPass (next : Kind) (ts : List Token) (ss : List ParsedStmt) (m : Nat) : Prop :=
  ∀ {k s rest inBlock}, s.pending = ts ++ rest → firstKind .eof rest = next →
    endsSequence inBlock next →
    Passes m k (statements (.within k) inBlock) s (pure ss)
      fun t => t.pending = rest ∧ t.last = s.last

theorem StmtsPass.nil : StmtsPass next [] [] 0 := by
  intro k s rest inBlock hs hnext hends
  rw [← hnext, show rest = s.pending from hs.symm, ← kind_current] at hends
  exact (passes_congr (outline_statements_nil hends)).mpr (.refl ⟨hs, rfl⟩ (Nat.zero_le k))

theorem StmtsPass.cons {found : Option ParsedStmt} {ss : List ParsedStmt}
    (h : StmtPasses (firstKind next us) ts found m)
    (hfirst : ∃ x rest, ts = x :: rest ∧ startsStmt x.kind) (hs : StmtsPass next us ss n)
    (hlater : us = [] ∨ ∃ x rest, us = x :: rest ∧ startsStmt x.kind) :
    StmtsPass next (ts ++ us) (found.toList ++ ss) (max m n) := by
  intro k s rest inBlock hpend hnext hends
  rw [List.append_assoc] at hpend
  -- the sequence does not end before the statement
  have hstart : ¬ endsSequence inBlock s.current.kind := by
    obtain ⟨x, xs, rfl, hx⟩ := hfirst
    obtain rfl : s.current = x := current_of_pending hpend
    revert hx
    cases s.current.kind <;> cases inBlock <;> decide
  -- no `else` follows it, neither from the next statement nor behind the last
  have hfollow : firstKind next us ≠ .kwElse := by
    rcases hlater with rfl | ⟨x, xs, rfl, hx⟩
    · rintro rfl
      cases inBlock <;> cases hends
    · rw [firstKind_cons]
      intro h
      rw [h] at hx
      cases hx
  apply Passes.statements hstart (h hpend (by rw [firstKind_append, hnext]) hfollow)
  intro t ht
  have hrest := hs (k := k) (ht.pending_advance hpend) hnext hends
  exact hrest.imp fun u hu => ⟨hu.1, hu.2.trans ht.last⟩

theorem BlockPasses.braces {ss : List ParsedStmt} (hopen : opening.kind = .openCurly)
    (hs : StmtsPass .closeCurly us ss m) (hclose : closing.kind = .closeCurly) :
    BlockPasses (opening :: (us ++ [closing]))
      ⟨⟨opening, opening.span.cover closing.span⟩, ss⟩ (1 + m) := by
  refine ⟨⟨opening, _, rfl, hopen⟩, fun {k s rest} hpend => ?_⟩
  cases k with
  -- without a level to spare a block fails at once, and it needs one
  | zero => exact .inr ⟨by omega, overflows_tooDeep⟩
  | succ k =>
    replace hpend : s.pending = opening :: (us ++ closing :: rest) := by simpa using hpend
    obtain rfl : s.current = opening := current_of_pending hpend
    have hadv := pending_advance_of_pending hpend
    rw [Nested.within, Parser.block, passes_current_bind, passes_advance_bind]
    have hends : endsSequence true .closeCurly := rfl
    have hbody := hs (k := k) hadv (by rw [firstKind_cons, hclose]) hends
    refine (hbody.last fun t ht => ?_).levels (by omega)
    obtain rfl : t.current = closing := current_of_pending ht.1
    rw [passes_current_bind, if_pos hclose]
    refine .refl (Covers.cons (.before ?_ ht.2 hclose rfl) hopen rfl) (Nat.zero_le k)
    rw [hadv, ht.1]

/-! ### All derivations -/

mutual

theorem passes_expr {stratum : Stratum} {ts : List Token} {e : ParsedExpr} {n : Nat}
    (h : IsExpr false stratum ts e n) : ExprPasses stratum ts e n :=
  match h with
  | .tighter h => (passes_expr h).tighter
  | .binary hl hop hr => (passes_expr hl).binary hop (passes_expr hr)
  | .unary hop he => (passes_expr he).unary hop
  | .call hf hopen hes hclose => (passes_expr hf).call hopen (passes_arguments hes) hclose
  | .identifier hk => .identifier hk
  | .integer hk hvalue => .integer hk hvalue
  | .true hk => .boolean hk
  | .false hk => .boolean hk
  | .group hopen he hclose => (passes_expr he).group hopen hclose
  | .conditional hif hopen hc hclose hb hf hts =>
    (passes_expr hc).conditional hif hopen hclose (passes_block hb) (passes_alternative hf) hts
  | .function hfn hopen hnames hclose hb hts =>
    .function hfn hopen hnames hclose (passes_block hb) hts

theorem passes_arguments {us : List Token} {es : List ParsedExpr} {n : Nat}
    (h : IsArguments false us es n) : es = [] ∧ us = [] ∧ n = 0 ∨ ArgumentsPass us es n :=
  match h with
  | .none => .inl ⟨rfl, rfl, rfl⟩
  | .one he => .inr (ArgumentsPass.one (passes_expr he) he.first)
  | .more hes hne hk he =>
    have hbefore := (passes_arguments hes).resolve_left fun h => hne h.1
    .inr (ArgumentsPass.more hbefore hk (passes_expr he) he.first)

theorem passes_alternative {ws : List Token} {f : Option ParsedBlock} {n : Nat}
    (h : IsAlternative false ws f n) : AlternativePasses ws f n :=
  match h with
  | .none => AlternativePasses.none
  | .some hk hb => AlternativePasses.some hk (passes_block hb)

theorem passes_block {ts : List Token} {b : ParsedBlock} {n : Nat} (h : IsBlock false ts b n) :
    BlockPasses ts b n :=
  match h with
  | .braces hopen hs hclose => .braces hopen (passes_stmts hs) hclose

theorem passes_stmt {next : Kind} {ts : List Token} {found : Option ParsedStmt} {n : Nat}
    (h : IsStmt false next ts found n) : StmtPasses next ts found n :=
  match h with
  | .empty hk => StmtPasses.empty hk
  | .block hb => StmtPasses.block (passes_block hb)
  | .binding hlet hname hassign he hend hts =>
    StmtPasses.binding hlet hname hassign (passes_expr he) hend hts
  | .returning hreturn he hend hts => StmtPasses.returning hreturn (passes_expr he) hend hts
  | .expression he hend hts hfirst =>
    StmtPasses.expression (passes_expr he) he.first hend hts hfirst

theorem passes_stmts {next : Kind} {ts : List Token} {ss : List ParsedStmt} {n : Nat}
    (h : IsStmts false next ts ss n) : StmtsPass next ts ss n :=
  match h with
  | .nil => StmtsPass.nil
  | .cons h hs => StmtsPass.cons (passes_stmt h) h.first (passes_stmts hs) hs.first

end

end Grammar

end LetFn
