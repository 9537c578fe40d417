/-
LetFn/Proofs/Spans.lean

Spans nest as the tree does.

The spans of a tree are put together in many ways: from tokens, from the
spans of operands, from whatever token a parser stops on; and brackets that
only group are left out of them.  What holds of all of them is that a span is
bounded by tokens (`Span.Bounded`).  The tokens of a source stand one behind
the other (`Stretch`), and so do spans that are bounded by tokens of two
neighbouring stretches (`Span.Bounded.before`).  So the spans of the parts of
a node are arranged within the tokens of the node (`Arranged`).

The node's own span is that of all its tokens, or it is the span from one of
its parts to another one; either way it contains them all
(`placed_of_around`, `placed_of_cover`).  `placed_expr` and its companions
follow the derivation, for the lax grammar, which holds of broken sources too.

Main statement: `placed_of_mem_nodes`.
-/
import LetFn.Proofs.Diagnosis
import LetFn.Tree.Nodes

namespace LetFn

variable {tokens ts us : List Token}
variable {t u : Token}
variable {a b s : Span}
variable {ss ss' : List Span}

/-! ### Spans one behind the other -/

namespace Span

/-- The second span lies within the first one. -/
structure Contains (s part : Span) : Prop where
  start_le : s.start.offset ≤ part.start.offset
  le_stop : part.stop.offset ≤ s.stop.offset

/-- The first span ends where the second one starts, or before. -/
def Before (a b : Span) : Prop := a.stop.offset ≤ b.start.offset

/-- None of the spans is empty, and each one ends before the next one starts. -/
structure InLine (ss : List Span) : Prop where
  start_lt_stop : ∀ s ∈ ss, s.start.offset < s.stop.offset
  apart : ss.Pairwise Before

theorem InLine.sublist (h : InLine ss) (hsub : ss'.Sublist ss) : InLine ss' :=
  ⟨fun s hs => h.start_lt_stop s (hsub.subset hs), h.apart.sublist hsub⟩

/-- From the start of the first one to the end of the last one, there they all are. -/
theorem InLine.contains (h : InLine ss) (ha : ss.head? = some a) (hb : ss.getLast? = some b) :
    ∀ s ∈ ss, (a.cover b).Contains s := by
  intro s hs
  constructor
  · -- each span starts behind the first one, or is the first one
    obtain ⟨rest, rfl⟩ := List.head?_eq_some_iff.mp ha
    rcases List.mem_cons.mp hs with rfl | hmem
    · exact Nat.le_refl _
    · have hlt := h.start_lt_stop a List.mem_cons_self
      exact Nat.le_trans (Nat.le_of_lt hlt) (List.rel_of_pairwise_cons h.apart hmem)
  · -- and ends before the last one
    obtain ⟨front, rfl⟩ := List.getLast?_eq_some_iff.mp hb
    rcases List.mem_append.mp hs with hmem | hmem
    · have hlt := h.start_lt_stop b (List.mem_append_right front List.mem_cons_self)
      have hle := (List.pairwise_append.mp h.apart).2.2 s hmem b List.mem_cons_self
      exact Nat.le_trans hle (Nat.le_of_lt hlt)
    · exact Nat.le_of_eq (List.mem_singleton.mp hmem ▸ rfl)

theorem around_of_ends (ht : ts.head? = some t) (hu : ts.getLast? = some u) :
    around ts = t.span.cover u.span := by
  obtain ⟨rest, rfl⟩ := List.head?_eq_some_iff.mp ht
  rw [List.getLast?_cons, Option.some.injEq] at hu
  rw [around, List.getLastD_eq_getLast?, hu]

/-- From the first token of a stretch to the last one of a later one. -/
theorem around_append (hts : ts ≠ []) (hus : us ≠ []) (between : List Token) :
    around (ts ++ (between ++ us)) = (around ts).cover (around us) := by
  have hhead : ts.head? = some (ts.head hts) := List.head?_eq_some_head hts
  have hlast : us.getLast? = some (us.getLast hus) := List.getLast?_eq_some_getLast hus
  rw [around_of_ends hhead (List.getLast?_eq_some_getLast hts),
    around_of_ends (List.head?_eq_some_head hus) hlast]
  -- the first token of the whole is that of `ts`, the last one that of `us`
  apply around_of_ends
  · rw [List.head?_append, hhead, Option.some_or]
  · rw [List.getLast?_append, List.getLast?_append, hlast, Option.some_or, Option.some_or]

/-- The span runs from the start of one of the tokens to the end of one of
them, and it is not empty. -/
structure Bounded (ts : List Token) (s : Span) : Prop where
  start : ∃ t ∈ ts, s.start = t.span.start
  stop : ∃ t ∈ ts, s.stop = t.span.stop
  start_lt_stop : s.start.offset < s.stop.offset

theorem Bounded.mono (h : s.Bounded ts) (hsub : ts ⊆ us) : s.Bounded us where
  start := h.start.imp fun _ ht => ⟨hsub ht.1, ht.2⟩
  stop := h.stop.imp fun _ ht => ⟨hsub ht.1, ht.2⟩
  start_lt_stop := h.start_lt_stop

theorem Bounded.left (h : s.Bounded ts) : s.Bounded (ts ++ us) :=
  h.mono (List.subset_append_left ts us)

theorem Bounded.right (h : s.Bounded us) : s.Bounded (ts ++ us) :=
  h.mono (List.subset_append_right ts us)

theorem Bounded.cons (h : s.Bounded ts) : s.Bounded (t :: ts) :=
  h.mono (List.subset_cons_self t ts)

end Span

open LetFn.Span (Before Contains InLine Bounded)

/-! ### Tokens one behind the other -/

/-- Some of the tokens, one behind the other. -/
structure Stretch (tokens ts : List Token) : Prop where
  subset : ts ⊆ tokens
  inLine : InLine (ts.map (·.span))

namespace Stretch

theorem sublist (h : Stretch tokens ts) (hsub : us.Sublist ts) : Stretch tokens us :=
  ⟨List.Subset.trans hsub.subset h.subset, h.inLine.sublist (hsub.map _)⟩

theorem left (h : Stretch tokens (ts ++ us)) : Stretch tokens ts :=
  h.sublist (List.sublist_append_left ts us)

theorem right (h : Stretch tokens (ts ++ us)) : Stretch tokens us :=
  h.sublist (List.sublist_append_right ts us)

theorem head (h : Stretch tokens (t :: ts)) : Stretch tokens [t] :=
  h.sublist (List.sublist_append_left [t] ts)

theorem tail (h : Stretch tokens (t :: ts)) : Stretch tokens ts :=
  h.sublist (List.sublist_cons_self t ts)

theorem bounded_token (h : Stretch tokens ts) (ht : t ∈ ts) : t.span.Bounded ts :=
  ⟨⟨t, ht, rfl⟩, ⟨t, ht, rfl⟩, h.inLine.start_lt_stop _ (List.mem_map_of_mem ht)⟩

/-- What is bounded by one stretch stands before what is bounded by the next. -/
theorem before (h : Stretch tokens (ts ++ us)) (ha : a.Bounded ts) (hb : b.Bounded us) :
    a.Before b := by
  obtain ⟨t, ht, hstop⟩ := ha.stop
  obtain ⟨u, hu, hstart⟩ := hb.start
  have hapart := h.inLine.apart
  -- every token of the first part stands before every one of the second
  rw [List.pairwise_map, List.pairwise_append] at hapart
  rw [Before, hstop, hstart]
  exact hapart.2.2 t ht u hu

/-- The span of all tokens contains what is bounded by them. -/
theorem contains_around (h : Stretch tokens ts) (hs : s.Bounded ts) :
    (Span.around ts).Contains s := by
  obtain ⟨t, ht, hstart⟩ := hs.start
  obtain ⟨u, hu, hstop⟩ := hs.stop
  have hne := List.ne_nil_of_mem ht
  have hhead : ts.head? = some (ts.head hne) := List.head?_eq_some_head hne
  have hlast : ts.getLast? = some (ts.getLast hne) := List.getLast?_eq_some_getLast hne
  -- the spans of the tokens are in line themselves
  have hcontains := h.inLine.contains (by rw [List.head?_map, hhead]; rfl)
    (by rw [List.getLast?_map, hlast]; rfl)
  rw [Span.around_of_ends hhead hlast]
  constructor
  · rw [hstart]
    exact (hcontains _ (List.mem_map_of_mem ht)).start_le
  · rw [hstop]
    exact (hcontains _ (List.mem_map_of_mem hu)).le_stop

end Stretch

/-! ### Spans within tokens -/

/-- The spans are bounded by the tokens, and stand one behind the other. -/
structure Arranged (ts : List Token) (ss : List Span) : Prop where
  bounded : ∀ s ∈ ss, s.Bounded ts
  apart : ss.Pairwise Before

namespace Arranged

theorem inLine (h : Arranged ts ss) : InLine ss :=
  ⟨fun s hs => (h.bounded s hs).start_lt_stop, h.apart⟩

theorem nil : Arranged ts [] := ⟨List.forall_mem_nil _, .nil⟩

theorem single (h : s.Bounded ts) : Arranged ts [s] :=
  ⟨List.forall_mem_singleton.mpr h, List.pairwise_singleton _ _⟩

theorem left (h : Arranged ts ss) : Arranged (ts ++ us) ss :=
  ⟨fun s hs => (h.bounded s hs).left, h.apart⟩

theorem right (h : Arranged us ss) : Arranged (ts ++ us) ss :=
  ⟨fun s hs => (h.bounded s hs).right, h.apart⟩

theorem behind (h : Arranged ts ss) : Arranged (t :: ts) ss :=
  ⟨fun s hs => (h.bounded s hs).cons, h.apart⟩

theorem append (hts : Stretch tokens (ts ++ us)) (h : Arranged ts ss) (h' : Arranged us ss') :
    Arranged (ts ++ us) (ss ++ ss') where
  bounded := List.forall_mem_append.mpr ⟨h.left.bounded, h'.right.bounded⟩
  apart := List.pairwise_append.mpr
    ⟨h.apart, h'.apart, fun a ha b hb => hts.before (h.bounded a ha) (h'.bounded b hb)⟩

theorem cons (hts : Stretch tokens (ts ++ us)) (h : a.Bounded ts) (h' : Arranged us ss) :
    Arranged (ts ++ us) (a :: ss) :=
  append hts (single h) h'

theorem token (hts : Stretch tokens (t :: ts)) (h : Arranged ts ss) :
    Arranged (t :: ts) (t.span :: ss) :=
  have key : Arranged ([t] ++ ts) (t.span :: ss) :=
    .cons hts (hts.head.bounded_token List.mem_cons_self) h
  key

/-- From the start of the first span to the end of the last one. -/
theorem bounded_cover (h : Arranged ts ss) (ha : ss.head? = some a) (hb : ss.getLast? = some b) :
    (a.cover b).Bounded ts where
  start := (h.bounded a (List.mem_of_head? ha)).start
  stop := (h.bounded b (List.mem_of_getLast? hb)).stop
  start_lt_stop := by
    have hmem := List.mem_of_head? ha
    exact Nat.lt_of_lt_of_le (h.bounded a hmem).start_lt_stop
      (h.inLine.contains ha hb a hmem).le_stop

end Arranged

theorem Stretch.bounded_around (h : Stretch tokens ts) (hne : ts ≠ []) :
    (Span.around ts).Bounded ts := by
  have hhead : ts.head? = some (ts.head hne) := List.head?_eq_some_head hne
  have hlast : ts.getLast? = some (ts.getLast hne) := List.getLast?_eq_some_getLast hne
  have harranged : Arranged ts (ts.map (·.span)) :=
    ⟨List.forall_mem_map.mpr fun t ht => h.bounded_token ht, h.inLine.apart⟩
  rw [Span.around_of_ends hhead hlast]
  exact harranged.bounded_cover (by rw [List.head?_map, hhead]; rfl)
    (by rw [List.getLast?_map, hlast]; rfl)

/-! ### Nodes -/

/-- The annotation of a node. -/
def Node.origin {α : Type} : Node α → α
  | .name x => x.origin
  | .expr e => e.origin
  | .block body => body.origin
  | .stmt s => s.origin

/-- The spans of the parts of a node, in the order of the source.  The
operator between two operands is one of them. -/
def Node.parts : Node Origin → List Span
  | .name _ | .expr (.identifier _) | .expr (.integer ..) | .expr (.boolean ..) => []
  | .expr (.unary _ _ operand) => [operand.origin.span]
  | .expr (.binary o left _ right) => [left.origin.span, o.token.span, right.origin.span]
  | .expr (.conditional _ condition consequence alternative) =>
    condition.origin.span :: consequence.origin.span :: alternative.toList.map (·.origin.span)
  | .expr (.function _ parameters body) => parameters.map (·.origin.span) ++ [body.origin.span]
  | .expr (.call _ callee arguments) => callee.origin.span :: arguments.map (·.origin.span)
  | .block body | .stmt (.block body) => body.body.map (·.origin.span)
  | .stmt (.binding _ x value) => [x.origin.span, value.origin.span]
  | .stmt (.returning _ value) | .stmt (.expression _ value) => [value.origin.span]

/-- The span of the node is bounded by tokens, and contains the node's own
token and its parts, which stand one behind the other. -/
structure Node.Placed (tokens : List Token) (node : Node Origin) : Prop where
  bounded : node.origin.span.Bounded tokens
  token : node.origin.span.Contains node.origin.token.span
  parts : ∀ part ∈ node.parts, node.origin.span.Contains part
  apart : node.parts.Pairwise Before

variable {node : Node Origin}

/-- A node that spans all its tokens. -/
theorem placed_of_around (hts : Stretch tokens ts) (hspan : node.origin.span = .around ts)
    (htoken : node.origin.token ∈ ts) (h : Arranged ts node.parts) : node.Placed tokens where
  bounded := hspan ▸ (hts.bounded_around (List.ne_nil_of_mem htoken)).mono hts.subset
  token := hspan ▸ hts.contains_around (hts.bounded_token htoken)
  parts part hpart := hspan ▸ hts.contains_around (h.bounded part hpart)
  apart := h.apart

/-- A node that spans what lies from one of its parts, or its own token, to another one. -/
theorem placed_of_cover (hts : Stretch tokens ts) (h : Arranged ts ss) (ha : ss.head? = some a)
    (hb : ss.getLast? = some b) (hspan : node.origin.span = a.cover b)
    (htoken : node.origin.token.span ∈ ss) (hparts : node.parts.Sublist ss) :
    node.Placed tokens where
  bounded := hspan ▸ (h.bounded_cover ha hb).mono hts.subset
  token := hspan ▸ h.inLine.contains ha hb _ htoken
  parts part hpart := hspan ▸ h.inLine.contains ha hb part (hparts.subset hpart)
  apart := h.apart.sublist hparts

namespace Grammar

/-! ### Spans of the grammar -/

variable {lax : Bool} {n : Nat}

theorem arranged_binary {l r : Span} (hts : Stretch tokens (ts ++ t :: us)) (hl : l.Bounded ts)
    (hr : r.Bounded us) : Arranged (ts ++ t :: us) [l, t.span, r] :=
  .cons hts hl (.token hts.right (.single hr))

theorem arranged_unary {operand : Span} (hts : Stretch tokens (t :: ts))
    (h : operand.Bounded ts) : Arranged (t :: ts) [t.span, operand] :=
  .token hts (.single h)

/-- Spans between two tokens, which may stand behind others. -/
theorem arranged_between (hts : Stretch tokens (t :: (ts ++ [u]))) (h : Arranged ts ss) :
    Arranged (t :: (ts ++ [u])) (t.span :: (ss ++ [u.span])) :=
  .token hts (.append hts.tail h (.single (hts.tail.right.bounded_token List.mem_cons_self)))

theorem bounded_block {b : ParsedBlock} (h : IsBlock lax ts b n) (hts : Stretch tokens ts) :
    b.origin.span.Bounded ts := by
  match h with
  | .braces _ _ _ =>
    exact (arranged_between hts .nil).bounded_cover rfl rfl

theorem bounded_expr {stratum : Stratum} {ts : List Token} {e : ParsedExpr} {n : Nat}
    (h : IsExpr lax stratum ts e n) (hts : Stretch tokens ts) : e.origin.span.Bounded ts := by
  match h with
  | .tighter h => exact bounded_expr h hts
  | .binary hl _ hr =>
    have hleft := bounded_expr hl hts.left
    have hright := bounded_expr hr hts.right.tail
    exact (arranged_binary hts hleft hright).bounded_cover rfl rfl
  | .unary _ he =>
    exact (arranged_unary hts (bounded_expr he hts.tail)).bounded_cover rfl rfl
  -- from the callee to the closing bracket; the arguments lie between
  | .call hf _ _ _ =>
    have hcallee := bounded_expr hf hts.left
    exact (Arranged.cons hts hcallee (arranged_between hts.right .nil)).bounded_cover rfl rfl
  | .identifier _ | .integer _ _ | .true _ | .false _ =>
    exact hts.bounded_token List.mem_cons_self
  -- the span of a group is that of the expression within
  | .group _ he _ => exact (bounded_expr he hts.tail.left).left.cons
  | .conditional _ _ _ _ _ _ hts' => exact hts.bounded_around (hts' ▸ List.cons_ne_nil _ _)
  | .function _ _ _ _ _ hts' => exact hts.bounded_around (hts' ▸ List.cons_ne_nil _ _)

theorem arranged_items {names : List (Name Origin)} (h : IsItems IsParameter ts names)
    (hts : Stretch tokens ts) : Arranged ts (names.map (·.origin.span)) := by
  induction h with
  | one h =>
    obtain @⟨t, hk⟩ := h
    exact .single (hts.bounded_token List.mem_cons_self)
  | more _ _ h ih =>
    obtain @⟨t, hk⟩ := h
    rw [List.map_append]
    -- the name stands behind the comma
    exact .append hts (ih hts.left)
      (.behind (.single (hts.right.tail.bounded_token List.mem_cons_self)))

theorem arranged_parameters {names : List (Name Origin)} (h : IsList IsParameter ts names)
    (hts : Stretch tokens ts) : Arranged ts (names.map (·.origin.span)) := by
  cases h with
  | none => exact .nil
  | items h => exact arranged_items h hts

theorem arranged_arguments {ts : List Token} {es : List ParsedExpr} {n : Nat}
    (h : IsArguments lax ts es n) (hts : Stretch tokens ts) :
    Arranged ts (es.map (·.origin.span)) := by
  match h with
  | .none => exact .nil
  | .one he => exact .single (bounded_expr he hts)
  | .more hes _ _ he =>
    rw [List.map_append]
    exact .append hts (arranged_arguments hes hts.left)
      (.behind (.single (bounded_expr he hts.right.tail)))

theorem arranged_alternative {f : Option ParsedBlock} (h : IsAlternative lax ts f n)
    (hts : Stretch tokens ts) : Arranged ts (f.toList.map (·.origin.span)) := by
  match h with
  | .none => exact .nil
  | .some _ hb => exact .behind (.single (bounded_block hb hts.tail))

theorem arranged_stmt {next : Kind} {found : Option ParsedStmt}
    (h : IsStmt lax next ts found n) (hts : Stretch tokens ts) :
    Arranged ts (found.toList.map (·.origin.span)) := by
  match h with
  | .empty _ => exact .nil
  | .block hb => exact .single (bounded_block hb hts)
  | .binding _ _ _ _ _ hts' => exact .single (hts.bounded_around (hts' ▸ List.cons_ne_nil _ _))
  | .returning _ _ _ hts' => exact .single (hts.bounded_around (hts' ▸ List.cons_ne_nil _ _))
  | .expression _ _ _ hfirst =>
    exact .single (hts.bounded_around (List.ne_nil_of_mem (List.mem_of_head? hfirst)))

theorem arranged_stmts {next : Kind} {ts : List Token} {ss : List ParsedStmt} {n : Nat}
    (h : IsStmts lax next ts ss n) (hts : Stretch tokens ts) :
    Arranged ts (ss.map (·.origin.span)) := by
  match h with
  | .nil => exact .nil
  | .cons h hs =>
    rw [List.map_append]
    exact .append hts (arranged_stmt h hts.left) (arranged_stmts hs hts.right)
  -- what is skipped has no spans
  | .skip _ hs => exact .right (arranged_stmts hs hts.right)

/-! ### Nodes of the grammar -/

/-- A name, an integer or a truth value. -/
theorem placed_token {node : Node Origin} (ht : Stretch tokens [t])
    (horigin : node.origin = .ofToken t) (hparts : node.parts = []) : node.Placed tokens := by
  -- its span is that of the token, and it has no parts
  refine placed_of_around ht ?_ ?_ (hparts ▸ .nil)
  · rw [horigin]
    rfl
  · rw [horigin]
    exact List.mem_cons_self

theorem placed_items {names : List (Name Origin)} (h : IsItems IsParameter ts names)
    (hts : Stretch tokens ts) : ∀ name ∈ names, (Node.name name).Placed tokens := by
  induction h with
  | one h =>
    obtain @⟨t, hk⟩ := h
    exact List.forall_mem_singleton.mpr (placed_token hts rfl rfl)
  | more _ _ h ih =>
    obtain @⟨t, hk⟩ := h
    refine List.forall_mem_append.mpr ⟨ih hts.left, ?_⟩
    exact List.forall_mem_singleton.mpr (placed_token hts.right.tail rfl rfl)

theorem placed_parameters {names : List (Name Origin)} (h : IsList IsParameter ts names)
    (hts : Stretch tokens ts) : ∀ node ∈ names.map Node.name, node.Placed tokens := by
  rw [List.forall_mem_map]
  cases h with
  | none => exact List.forall_mem_nil _
  | items h => exact placed_items h hts

mutual

theorem placed_expr {stratum : Stratum} {ts : List Token} {e : ParsedExpr} {n : Nat}
    (h : IsExpr lax stratum ts e n) (hts : Stretch tokens ts) :
    ∀ node ∈ e.nodes, node.Placed tokens := by
  match h with
  -- on the grammar: a node covers its tokens, and its parts lie within them in order
  | .tighter h => exact placed_expr h hts
  | .binary hl _ hr =>
    have hleft := bounded_expr hl hts.left
    have hright := bounded_expr hr hts.right.tail
    rw [Expr.nodes, List.forall_mem_cons, List.forall_mem_append]
    refine ⟨?_, placed_expr hl hts.left, placed_expr hr hts.right.tail⟩
    -- from operand to operand, with the operator between
    exact placed_of_cover hts (arranged_binary hts hleft hright) rfl rfl rfl
      (List.mem_cons_of_mem _ List.mem_cons_self) (List.Sublist.refl _)
  | .unary _ he =>
    rw [Expr.nodes, List.forall_mem_cons]
    refine ⟨?_, placed_expr he hts.tail⟩
    -- from the operator to its operand
    exact placed_of_cover hts (arranged_unary hts (bounded_expr he hts.tail)) rfl rfl rfl
      List.mem_cons_self (List.sublist_cons_self ..)
  | .call hf _ hes _ =>
    have harguments := arranged_between hts.right (arranged_arguments hes hts.right.tail.left)
    rw [Expr.nodes, List.forall_mem_cons, List.forall_mem_append]
    refine ⟨?_, placed_expr hf hts.left, placed_arguments hes hts.right.tail.left⟩
    -- from the callee to the closing bracket, which is no part of the node
    refine placed_of_cover hts (.cons hts (bounded_expr hf hts.left) harguments) rfl ?_ rfl
      (List.mem_cons_of_mem _ List.mem_cons_self) ?_
    · exact List.getLast?_concat (l := _ :: _ :: _)
    · exact (List.sublist_append_left ..).cons _ |>.cons_cons _
  | .identifier _ | .integer _ _ | .true _ | .false _ =>
    rw [Expr.nodes, List.forall_mem_singleton]
    exact placed_token hts rfl rfl
  -- the brackets are outside of the node
  | .group _ he _ => exact placed_expr he hts.tail.left
  | .conditional _ _ hc _ hb hf hts' =>
    subst hts'
    have hinner := hts.tail.tail
    have hbranches := hinner.right.tail
    rw [Expr.nodes, List.forall_mem_cons, List.forall_mem_append, List.forall_mem_append]
    refine ⟨?_, placed_expr hc hinner.left, placed_block hb hbranches.left,
      placed_alternative hf hbranches.right⟩
    -- the keyword and the bracket stand in front of all parts
    refine placed_of_around hts rfl List.mem_cons_self (.behind (.behind ?_))
    apply Arranged.cons hinner (bounded_expr hc hinner.left)
    exact .behind (.cons hbranches (bounded_block hb hbranches.left)
      (arranged_alternative hf hbranches.right))
  | .function _ _ hxs _ hb hts' =>
    subst hts'
    have hinner := hts.tail.tail
    have hbody := hinner.right.tail
    rw [Expr.nodes, List.forall_mem_cons, List.forall_mem_append]
    refine ⟨?_, placed_parameters hxs hinner.left, placed_block hb hbody⟩
    refine placed_of_around hts rfl List.mem_cons_self (.behind (.behind ?_))
    exact .append hinner (arranged_parameters hxs hinner.left)
      (.behind (.single (bounded_block hb hbody)))

theorem placed_arguments {ts : List Token} {es : List ParsedExpr} {n : Nat}
    (h : IsArguments lax ts es n) (hts : Stretch tokens ts) :
    ∀ node ∈ Expr.nodesEach es, node.Placed tokens := by
  match h with
  | .none => exact List.forall_mem_nil _
  | .one he =>
    rw [Expr.nodesEach_singleton]
    exact placed_expr he hts
  | .more hes _ _ he =>
    rw [Expr.nodesEach_append, List.forall_mem_append, Expr.nodesEach_singleton]
    exact ⟨placed_arguments hes hts.left, placed_expr he hts.right.tail⟩

theorem placed_alternative {ts : List Token} {f : Option ParsedBlock} {n : Nat}
    (h : IsAlternative lax ts f n) (hts : Stretch tokens ts) :
    ∀ node ∈ Block.nodesElse f, node.Placed tokens := by
  match h with
  | .none => exact List.forall_mem_nil _
  | .some _ hb => exact placed_block hb hts.tail

theorem placed_block {ts : List Token} {b : ParsedBlock} {n : Nat} (h : IsBlock lax ts b n)
    (hts : Stretch tokens ts) : ∀ node ∈ b.nodes, node.Placed tokens := by
  match h with
  | .braces _ hs _ =>
    have hbody := hts.tail.left
    rw [Block.nodes, List.forall_mem_cons]
    refine ⟨?_, placed_stmts hs hbody⟩
    -- from brace to brace, and the braces are no parts
    refine placed_of_cover hts (arranged_between hts (arranged_stmts hs hbody)) rfl ?_ rfl
      List.mem_cons_self ?_
    · exact List.getLast?_concat (l := _ :: _)
    · exact (List.sublist_append_left ..).cons _

theorem placed_stmt {next : Kind} {ts : List Token} {found : Option ParsedStmt} {n : Nat}
    (h : IsStmt lax next ts found n) (hts : Stretch tokens ts) :
    ∀ node ∈ Stmt.nodesEach found.toList, node.Placed tokens := by
  match h with
  | .empty _ => exact List.forall_mem_nil _
  | .block hb =>
    rw [Option.toList_some, Stmt.nodesEach_singleton, Stmt.nodes]
    exact placed_block hb hts
  | .binding _ _ _ he _ hts' =>
    subst hts'
    have hvalue := hts.tail.tail.tail
    rw [Option.toList_some, Stmt.nodesEach_singleton, Stmt.nodes,
      List.forall_mem_cons, List.forall_mem_cons]
    -- the statement, its name and its value
    refine ⟨?_, placed_token hts.tail.head rfl rfl, placed_expr he hvalue.left⟩
    refine placed_of_around hts rfl List.mem_cons_self (.behind ?_)
    exact .token hts.tail (.behind (.left (.single (bounded_expr he hvalue.left))))
  | .returning _ he _ hts' =>
    subst hts'
    have hvalue := hts.tail.left
    rw [Option.toList_some, Stmt.nodesEach_singleton, Stmt.nodes, List.forall_mem_cons]
    refine ⟨?_, placed_expr he hvalue⟩
    exact placed_of_around hts rfl List.mem_cons_self
      (.behind (.left (.single (bounded_expr he hvalue))))
  | .expression he _ hts' hfirst =>
    -- the token of the statement is the first one of its expression
    have hmem := List.mem_of_head? hfirst
    subst hts'
    rw [Option.toList_some, Stmt.nodesEach_singleton, Stmt.nodes, List.forall_mem_cons]
    refine ⟨?_, placed_expr he hts.left⟩
    exact placed_of_around hts rfl hmem (.left (.single (bounded_expr he hts.left)))

theorem placed_stmts {next : Kind} {ts : List Token} {ss : List ParsedStmt} {n : Nat}
    (h : IsStmts lax next ts ss n) (hts : Stretch tokens ts) :
    ∀ node ∈ Stmt.nodesEach ss, node.Placed tokens := by
  match h with
  | .nil => exact List.forall_mem_nil _
  | .cons h hs =>
    rw [Stmt.nodesEach_append, List.forall_mem_append]
    exact ⟨placed_stmt h hts.left, placed_stmts hs hts.right⟩
  | .skip _ hs => exact placed_stmts hs hts.right

end

end Grammar

/-! ### Sources -/

variable {source : String}

/-- The tokens of a source stand one behind the other, unless it is too large
for the offsets. -/
theorem stretch_ofSource (file : String) (hsize : source.utf8ByteSize < UInt32.size) :
    Stretch (tokenize file source) (TokenStream.ofSource file source).pending ∧
      ∀ t ∈ tokenize file source, t.span.start.file = file ∧ t.span.stop.file = file ∧
        t.span.stop.offset ≤ source.utf8ByteSize := by
  obtain ⟨stop, hstop, hlast, htiled⟩ := tiled_stream file 0 source.toList
  replace htiled := htiled [] rfl
  have hle : stop ≤ source.utf8ByteSize := by
    have := hstop.le
    rwa [Nat.zero_add, Text.byteCount_toList] at this
  -- no offset is too large to be recorded
  have hfinish {t : Token} (ht : t ∈ (TokenStream.ofSource file source).pending) :
      t.span.stop = ⟨t.finish, file⟩ ∧ t.finish ≤ stop := by
    have hbound := htiled.finish_le.2 t ht
    refine ⟨?_, hbound⟩
    rw [(htiled.standsIn t ht).2.2.span, Position.ofByte, saturate_of_le]
    unfold maxOffset
    omega
  refine ⟨⟨fun t ht => List.mem_append_left _ ht, ?_, ?_⟩, ?_⟩
  · -- no span is empty
    rw [List.forall_mem_map]
    intro t ht
    rw [(hfinish ht).1]
    exact t.start_lt_finish (text_ne_empty_ofSource file source t ht)
  · -- none reaches into the next one
    rw [List.pairwise_map]
    refine htiled.pairwise.imp_of_mem fun ht _ hbefore => ?_
    rw [Before, (hfinish ht).1]
    exact hbefore
  · refine List.forall_mem_append.mpr ⟨fun t ht => ?_, List.forall_mem_singleton.mpr ?_⟩
    · rw [(hfinish ht).1]
      refine ⟨?_, rfl, Nat.le_trans (hfinish ht).2 hle⟩
      rw [(htiled.standsIn t ht).2.2.span]
    · rw [show (TokenStream.ofSource file source).last = _ from hlast]
      exact ⟨rfl, rfl, Nat.le_trans (Nat.min_le_left ..) hle⟩

/-- **Spans nest**, whatever is wrong with the source: the span of every node
runs from the start of a token to the end of a token, is not empty and lies
within the source, and contains the token of the node and the spans of its
parts.  The parts stand one behind the other, and so do the statements of the
program. -/
theorem placed_of_mem_nodes (file source : String) (hsize : source.utf8ByteSize < UInt32.size) :
    (∀ node ∈ (parseSource file source).program.nodes,
      node.Placed (tokenize file source) ∧
        node.origin.span.start.file = file ∧ node.origin.span.stop.file = file ∧
        node.origin.span.stop.offset ≤ source.utf8ByteSize) ∧
    ((parseSource file source).program.statements.map (·.origin.span)).Pairwise Before := by
  obtain ⟨hstretch, htokens⟩ := stretch_ofSource file hsize
  obtain ⟨n, -, hprogram⟩ := Grammar.isProgram_parse true (.ofSource file source) nofun
  refine ⟨fun node hnode => ?_, (Grammar.arranged_stmts hprogram hstretch).apart⟩
  -- the ends of the span are ends of tokens, and these lie in the file
  have hplaced := Grammar.placed_stmts hprogram hstretch node hnode
  obtain ⟨t, ht, hstart⟩ := hplaced.bounded.start
  obtain ⟨u, hu, hstop⟩ := hplaced.bounded.stop
  rw [hstart, hstop]
  exact ⟨hplaced, (htokens t ht).1, (htokens u hu).2.1, (htokens u hu).2.2⟩

/-- Behind a binding without a name, and with a statement in a function that
cannot be read, the factors of a product stand where they should. -/
theorem placed_of_mem_nodes_example :
    let source := "let = 1; (a + b) * fn() { (; c }(2)"
    let program := (parseSource "shell" source).program
    source.utf8ByteSize < UInt32.size ∧ (parseSource "shell" source).errors.length = 2 ∧
      (∃ node ∈ program.nodes,
        node.parts.map (fun s => (s.start.offset, s.stop.offset)) =
          [(10, 15), (17, 18), (19, 35)] ∧
        node.Placed (tokenize "shell" source) ∧ node.origin.span.start.file = "shell" ∧
        node.origin.span.stop.file = "shell" ∧
        node.origin.span.stop.offset ≤ source.utf8ByteSize) ∧
      (program.statements.map (·.origin.span)).Pairwise Before := by
  intro source program
  have hsize : source.utf8ByteSize < UInt32.size := by decide +kernel
  obtain ⟨node, hmem, hparts⟩ : ∃ node ∈ program.nodes,
      node.parts.map (fun s => (s.start.offset, s.stop.offset)) =
        [(10, 15), (17, 18), (19, 35)] := by
    decide +kernel
  obtain ⟨hnodes, hstatements⟩ := placed_of_mem_nodes "shell" source hsize
  exact ⟨hsize, by decide +kernel, ⟨node, hmem, hparts, hnodes node hmem⟩, hstatements⟩

end LetFn
