/-
LetFn/Proofs/Relocation.lean

Relocation: no parser ever looks at a position.

A map of positions acts on all that is made of them: on tokens and streams,
on diagnostics and events, and, through the origins of their nodes, on trees.
To read a stream that has been relocated is to read the stream and relocate
what comes of it: the tree, the errors, and where the reader stops.

`Relocates f m p q` says that of two parsers, of which `q` has been given
relocated things and `p` has not; `m` is how `f` acts on what they give.
There is a law for each way to put parsers together and a lemma for each
parser; what is read one level deeper is `Movable` by assumption, and
`movable_within` ties the knot.

Main statement: `parse_relocate`.
-/
import LetFn.Parser.Program
import LetFn.Tree.Map

namespace LetFn

variable {f : Position → Position}
variable {α α' β β' : Type}

/-! ### What is made of positions -/

/-- Moves both ends of a span. -/
def Span.relocate (f : Position → Position) (s : Span) : Span := ⟨f s.start, f s.stop⟩

/-- Moves a token, which stays what it is. -/
def Token.relocate (f : Position → Position) (t : Token) : Token :=
  ⟨t.kind, t.text, t.span.relocate f⟩

@[simp] theorem Token.kind_relocate (t : Token) : (t.relocate f).kind = t.kind := rfl

@[simp] theorem Token.text_relocate (t : Token) : (t.relocate f).text = t.text := rfl

/-- Moves where a node comes from. -/
def Origin.relocate (f : Position → Position) (o : Origin) : Origin :=
  ⟨o.token.relocate f, o.span.relocate f⟩

/-- Moves a diagnostic, which says the same as before. -/
def Diagnostic.relocate (f : Position → Position) (e : Diagnostic) : Diagnostic :=
  ⟨e.cause, f e.position⟩

/-- Moves what an event tells of. -/
def Event.relocate (f : Position → Position) : Event → Event
  | .token t => .token (t.relocate f)
  | .statement first => .statement (first.relocate f)
  | .failure error => .failure (error.relocate f)

theorem errorsOf_relocate (events : List Event) :
    errorsOf (events.map (Event.relocate f)) = (errorsOf events).map (Diagnostic.relocate f) := by
  rw [errorsOf, errorsOf, List.filterMap_map, List.map_filterMap]
  refine congrArg (List.filterMap · events) (funext fun event => ?_)
  -- an event is a failure after the move if it was one before
  cases event with
  | token t => rfl
  | statement first => rfl
  | failure error => rfl

/-- A node that has been moved comes from where its origin has been moved to. -/
theorem Expr.origin_map (g : α → β) (e : Expr α) : (e.map g).origin = g e.origin := by
  cases e <;> rfl

/-! ### Streams -/

namespace TokenStream

theorem kind_relocate_pending (f : Position → Position) (s : TokenStream) :
    ∀ t ∈ s.pending.map (Token.relocate f), t.kind ≠ .eof :=
  List.forall_mem_map.mpr s.kind_pending

/-- Moves every token of a stream. -/
def relocate (f : Position → Position) (s : TokenStream) : TokenStream where
  pending := s.pending.map (Token.relocate f)
  last := s.last.relocate f
  kind_pending := s.kind_relocate_pending f
  kind_last := s.kind_last

variable (s : TokenStream)

@[simp] theorem current_relocate : (s.relocate f).current = s.current.relocate f := by
  rcases h : s.pending with - | ⟨t, rest⟩
  · simp [current, relocate, h]
  · simp [current, relocate, h]

@[simp] theorem advance_relocate : (s.relocate f).advance = s.advance.relocate f := by
  ext1
  · exact List.map_tail.symm
  · rfl

@[simp] theorem peek_relocate : (s.relocate f).peek = s.peek.relocate f := by
  rw [peek, advance_relocate, current_relocate, peek]

theorem sight_relocate : (s.relocate f).sight = s.sight.relocate f := by
  rw [sight, advance_relocate, peek_relocate, sight, Event.relocate]

end TokenStream

/-! ### Outcomes -/

/-- Moves where a run stopped and what happened on the way. -/
def Outcome.relocate (f : Position → Position) (m : α → β) (o : Outcome α) : Outcome β :=
  ⟨m o.value, o.rest.relocate f, o.events.map (Event.relocate f)⟩

/-- Moves a diagnostic, or else what there is instead of one. -/
def relocateResult (f : Position → Position) (m : α → β) :
    Except Diagnostic α → Except Diagnostic β
  | .error e => .error (e.relocate f)
  | .ok a => .ok (m a)

namespace Parser

/-- On a stream that has been relocated, `q` does what `p` does on the stream. -/
def Relocates (f : Position → Position) (m : α → β) (p : Parser α) (q : Parser β) : Prop :=
  ∀ s : TokenStream, q.run (s.relocate f) = (p.run s).relocate f (relocateResult f m)

section Laws

variable {m : α → β} {m' : α' → β'}
variable {p p' : Parser α} {q q' : Parser β}

theorem relocates_pure {a : α} {b : β} (h : b = m a) : Relocates f m (pure a) (pure b) := by
  subst h
  exact fun s => rfl

theorem relocates_fail {e e' : Diagnostic} (h : e' = e.relocate f) :
    Relocates f m (fail e) (fail e') := by
  subst h
  exact fun s => rfl

/-- Reading on from an outcome that has been relocated. -/
theorem after_relocate {o : Outcome (Except Diagnostic α)} {g : α → Parser α'}
    {h : β → Parser β'}
    (hg : ∀ a, (h (m a)).run (o.rest.relocate f) =
      ((g a).run o.rest).relocate f (relocateResult f m')) :
    after (o.relocate f (relocateResult f m)) h =
      (after o g).relocate f (relocateResult f m') := by
  rcases o with ⟨e | a, t, events⟩
  · rfl
  · -- a failure is moved as it is; a value is read on from, and the events are joined
    have hlater := hg a
    simp only [Outcome.relocate, relocateResult, after_ok, List.map_append] at hlater ⊢
    rw [hlater]

theorem Relocates.bind {g : α → Parser α'} {h : β → Parser β'} (hp : Relocates f m p q)
    (hg : ∀ a, Relocates f m' (g a) (h (m a))) : Relocates f m' (p >>= g) (q >>= h) := by
  intro s
  rw [run_bind, run_bind, hp s]
  exact after_relocate fun a => hg a _

section Fields

variable {s : TokenStream}

theorem Relocates.rest (h : Relocates f m p q) :
    (q.run (s.relocate f)).rest = (p.run s).rest.relocate f :=
  congrArg (·.rest) (h s)

theorem Relocates.ok {a : α} (h : Relocates f m p q) (hv : (p.run s).value = .ok a) :
    (q.run (s.relocate f)).value = .ok (m a) := by
  rw [h s, Outcome.relocate, hv]
  rfl

theorem Relocates.error {e : Diagnostic} (h : Relocates f m p q)
    (hv : (p.run s).value = .error e) :
    (q.run (s.relocate f)).value = .error (e.relocate f) := by
  rw [h s, Outcome.relocate, hv]
  rfl

end Fields

theorem Relocates.ite {c : Prop} [Decidable c] (hp : c → Relocates f m p q)
    (hp' : ¬ c → Relocates f m p' q') :
    Relocates f m (if c then p else p') (if c then q else q') := by
  split
  · next hc => exact hp hc
  · next hc => exact hp' hc

theorem relocates_current : Relocates f (Token.relocate f) current current := by
  intro s
  rw [run_current, s.current_relocate]
  rfl

theorem relocates_peek : Relocates f (Token.relocate f) peek peek := by
  intro s
  rw [run_peek, s.peek_relocate]
  rfl

theorem relocates_advance : Relocates f id advance advance := by
  intro s
  rw [run_advance, s.advance_relocate, s.sight_relocate]
  rfl

theorem relocates_announce (first : Token) :
    Relocates f id (announce first) (announce (first.relocate f)) :=
  fun _ => rfl

theorem relocates_expect (kind : Kind) :
    Relocates f (Token.relocate f) (expect kind) (expect kind) := by
  refine relocates_peek.bind fun next => .ite (fun _ => ?_) fun _ => relocates_fail rfl
  exact relocates_advance.bind fun _ => relocates_pure rfl

theorem relocates_accept (kind : Kind) : Relocates f id (accept kind) (accept kind) :=
  relocates_peek.bind fun _ => .ite (fun _ => relocates_advance) fun _ => relocates_pure rfl

theorem relocates_foldPeek {more : Kind → Bool} {stops : more .eof = false}
    {step : α → Parser α} {step' : β → Parser β}
    (hstep : ∀ a, Relocates f m (step a) (step' (m a))) (a : α) :
    Relocates f m (foldPeek more stops step a) (foldPeek more stops step' (m a)) := by
  intro s
  -- on the turns of the loop; the kind that decides on the next turn does not move
  induction a, s using foldPeek_induction stops with
  | turn a s ih =>
    have hturn : Relocates f m (advance >>= fun _ => step a) (advance >>= fun _ => step' (m a)) :=
      relocates_advance.bind fun _ => hstep a
    rw [run_foldPeek, run_foldPeek, s.peek_relocate, Token.kind_relocate, hturn s]
    split
    · next hmore => exact after_relocate fun b => ih hmore b _ ((step a).rest_le _)
    · rfl

theorem relocates_separated (separator : Kind) (h : separator ≠ .eof)
    (hitem : Relocates f m p q) :
    Relocates f (List.map m) (separated separator h p) (separated separator h q) := by
  refine hitem.bind fun first => ?_
  -- the items are collected in reverse, and turned round at the end
  have hstep (before : List α) : Relocates f (List.map m) (p >>= fun a => pure (a :: before))
      (q >>= fun b => pure (b :: before.map m)) :=
    hitem.bind fun _ => relocates_pure rfl
  refine Relocates.bind (m := List.map m) (relocates_foldPeek (m := List.map m) hstep [first]) ?_
  exact fun items => relocates_pure List.map_reverse.symm

theorem relocates_listed (hitem : Relocates f m p q) :
    Relocates f (List.map m) (listed p) (listed q) := by
  refine relocates_peek.bind fun next => .ite (fun _ => ?_) fun _ => ?_
  · exact relocates_advance.bind fun _ => relocates_pure rfl
  · refine (relocates_separated .comma (by decide) hitem).bind fun items => ?_
    exact (relocates_expect .closeParen).bind fun _ => relocates_pure rfl

end Laws

/-- What is read one level deeper never looks at a position. -/
structure Movable (f : Position → Position) (inner : Nested) : Prop where
  expression : ∀ p, Relocates f (Expr.map (Origin.relocate f)) (inner.expression p)
    (inner.expression p)
  block : Relocates f (Block.map (Origin.relocate f)) inner.block inner.block

variable {inner : Nested}

/-! ### Leading parts -/

theorem relocates_identifier :
    Relocates f (Expr.map (Origin.relocate f)) identifier identifier :=
  relocates_current.bind fun _ => relocates_pure rfl

theorem relocates_integer : Relocates f (Expr.map (Origin.relocate f)) integer integer := by
  refine relocates_current.bind fun token => ?_
  rw [Token.text_relocate]
  -- the value depends on the text alone
  rcases Text.integer? token.text with - | value
  · exact relocates_fail rfl
  · exact relocates_pure rfl

theorem relocates_boolean : Relocates f (Expr.map (Origin.relocate f)) boolean boolean :=
  relocates_current.bind fun _ => relocates_pure rfl

theorem relocates_unary (hi : Movable f inner) :
    Relocates f (Expr.map (Origin.relocate f)) (unary inner) (unary inner) := by
  refine relocates_current.bind fun operator => relocates_advance.bind fun _ => ?_
  refine (hi.expression .unary).bind fun operand => relocates_pure ?_
  -- the span of the node is made from those of its parts, which have been moved
  rw [Expr.origin_map, Expr.map]
  rfl

theorem relocates_group (hi : Movable f inner) :
    Relocates f (Expr.map (Origin.relocate f)) (group inner) (group inner) := by
  refine relocates_advance.bind fun _ => (hi.expression .lowest).bind fun e => ?_
  exact (relocates_expect .closeParen).bind fun _ => relocates_pure rfl

theorem relocates_alternative (hi : Movable f inner) :
    Relocates f (Block.mapOption (Origin.relocate f)) (alternative inner) (alternative inner) := by
  refine relocates_peek.bind fun next => .ite (fun _ => ?_) fun _ => relocates_pure rfl
  refine relocates_advance.bind fun _ => (relocates_expect .openCurly).bind fun _ => ?_
  exact hi.block.bind fun body => relocates_pure rfl

theorem relocates_conditional (hi : Movable f inner) :
    Relocates f (Expr.map (Origin.relocate f)) (conditional inner) (conditional inner) := by
  refine relocates_current.bind fun keyword => (relocates_expect .openParen).bind fun _ => ?_
  refine relocates_advance.bind fun _ => (hi.expression .lowest).bind fun condition => ?_
  refine (relocates_expect .closeParen).bind fun _ => (relocates_expect .openCurly).bind fun _ => ?_
  refine hi.block.bind fun consequence => (relocates_alternative hi).bind fun otherwise => ?_
  exact relocates_current.bind fun last => relocates_pure rfl

theorem relocates_parameter : Relocates f (Name.map (Origin.relocate f)) parameter parameter :=
  (relocates_expect .identifier).bind fun _ => relocates_pure rfl

theorem relocates_function (hi : Movable f inner) :
    Relocates f (Expr.map (Origin.relocate f)) (function inner) (function inner) := by
  refine relocates_current.bind fun keyword => (relocates_expect .openParen).bind fun _ => ?_
  refine (relocates_listed relocates_parameter).bind fun names => ?_
  refine (relocates_expect .openCurly).bind fun _ => hi.block.bind fun body => ?_
  exact relocates_current.bind fun last => relocates_pure rfl

theorem relocates_leading (hi : Movable f inner) (form : Lead) :
    Relocates f (Expr.map (Origin.relocate f)) (leading inner form) (leading inner form) := by
  cases form with
  | identifier => exact relocates_identifier
  | integer => exact relocates_integer
  | boolean => exact relocates_boolean
  | unary => exact relocates_unary hi
  | group => exact relocates_group hi
  | conditional => exact relocates_conditional hi
  | function => exact relocates_function hi

theorem relocates_lead (hi : Movable f inner) :
    Relocates f (Expr.map (Origin.relocate f)) (lead inner) (lead inner) := by
  refine relocates_current.bind fun token => ?_
  rw [Token.kind_relocate]
  -- nothing begins with the token, or a leading part of some form
  rcases token.kind.lead? with - | form
  · exact relocates_fail rfl
  · exact relocates_leading hi form

/-! ### Links -/

theorem relocates_binary (hi : Movable f inner) (p : Precedence) (left : ParsedExpr) :
    Relocates f (Expr.map (Origin.relocate f)) (binary inner p left)
      (binary inner p (left.map (Origin.relocate f))) := by
  refine relocates_current.bind fun operator => relocates_advance.bind fun _ => ?_
  refine (hi.expression p).bind fun right => relocates_pure ?_
  -- again, the span is made from those of the operands
  rw [Expr.origin_map, Expr.origin_map, Expr.map]
  rfl

theorem relocates_argument (hi : Movable f inner) :
    Relocates f (Expr.map (Origin.relocate f)) (argument inner) (argument inner) :=
  relocates_advance.bind fun _ => hi.expression .lowest

theorem relocates_call (hi : Movable f inner) (callee : ParsedExpr) :
    Relocates f (Expr.map (Origin.relocate f)) (call inner callee)
      (call inner (callee.map (Origin.relocate f))) := by
  refine relocates_current.bind fun opening => ?_
  refine (relocates_listed (relocates_argument hi)).bind fun arguments => ?_
  refine relocates_current.bind fun last => relocates_pure ?_
  rw [Expr.origin_map, ← Expr.mapEach_eq_map, Expr.map]
  rfl

theorem relocates_linked (hi : Movable f inner) (p : Precedence) (left : ParsedExpr)
    (form : Link) :
    Relocates f (Expr.map (Origin.relocate f)) (linked inner p left form)
      (linked inner p (left.map (Origin.relocate f)) form) := by
  cases form with
  | binary => exact relocates_binary hi p left
  | call => exact relocates_call hi left

theorem relocates_link (hi : Movable f inner) (left : ParsedExpr) :
    Relocates f (Expr.map (Origin.relocate f)) (link inner left)
      (link inner (left.map (Origin.relocate f))) := by
  refine relocates_current.bind fun token => ?_
  rw [Token.kind_relocate]
  rcases token.kind.link? with - | form
  · exact relocates_pure rfl
  · exact relocates_linked hi _ left form

theorem relocates_expression (hi : Movable f inner) (p : Precedence) :
    Relocates f (Expr.map (Origin.relocate f)) (expression inner p) (expression inner p) :=
  (relocates_lead hi).bind fun left => relocates_foldPeek (relocates_link hi) left

/-! ### Statements -/

theorem relocates_binding (hi : Movable f inner) :
    Relocates f (Stmt.map (Origin.relocate f)) (binding inner) (binding inner) := by
  refine relocates_current.bind fun keyword => (relocates_expect .identifier).bind fun name => ?_
  refine (relocates_expect .assignment).bind fun _ => relocates_advance.bind fun _ => ?_
  refine (hi.expression .lowest).bind fun value => (relocates_accept .semicolon).bind fun _ => ?_
  exact relocates_current.bind fun last => relocates_pure rfl

theorem relocates_returning (hi : Movable f inner) :
    Relocates f (Stmt.map (Origin.relocate f)) (returning inner) (returning inner) := by
  refine relocates_current.bind fun keyword => relocates_advance.bind fun _ => ?_
  refine (hi.expression .lowest).bind fun value => (relocates_accept .semicolon).bind fun _ => ?_
  exact relocates_current.bind fun last => relocates_pure rfl

theorem relocates_expressionStatement (hi : Movable f inner) :
    Relocates f (Stmt.map (Origin.relocate f)) (expressionStatement inner)
      (expressionStatement inner) := by
  refine relocates_current.bind fun first => ?_
  refine (hi.expression .lowest).bind fun value => (relocates_accept .semicolon).bind fun _ => ?_
  exact relocates_current.bind fun last => relocates_pure rfl

theorem relocates_formed (hi : Movable f inner) (form : StatementForm) :
    Relocates f (Stmt.map (Origin.relocate f)) (formed inner form) (formed inner form) := by
  cases form with
  | binding => exact relocates_binding hi
  | returning => exact relocates_returning hi
  | block => exact hi.block.bind fun body => relocates_pure rfl

theorem relocates_statement (hi : Movable f inner) :
    Relocates f (Option.map (Stmt.map (Origin.relocate f))) (statement inner)
      (statement inner) := by
  refine relocates_current.bind fun first => (relocates_announce first).bind fun _ => ?_
  refine .ite (fun _ => relocates_pure rfl) fun _ => ?_
  rw [Token.kind_relocate]
  -- a statement without a keyword of its own is an expression
  rcases first.kind.statementForm? with - | form
  · exact (relocates_expressionStatement hi).bind fun stmt => relocates_pure rfl
  · exact (relocates_formed hi form).bind fun stmt => relocates_pure rfl

/-! ### Sequences of statements -/

theorem skipStatement_relocate (inBlock : Bool) (depth : Nat) (s : TokenStream) :
    skipStatement inBlock depth (s.relocate f) =
      (skipStatement inBlock depth s).relocate f id := by
  fun_induction skipStatement inBlock depth s with
  -- whether skipping stops is decided by kinds: on the current token, before the next
  | case1 depth s hstop =>
    rw [skipStatement_of_stopsOn (by rwa [s.current_relocate]), s.current_relocate]
    rfl
  | case2 depth s hstop later hbefore =>
    rw [skipStatement_of_stopsBefore (by rwa [s.current_relocate])
      (by rwa [s.current_relocate, s.peek_relocate])]
    rfl
  | case3 depth s hstop later hbefore o ih =>
    rw [skipStatement_of_goesOn (by rwa [s.current_relocate])
      (by rwa [s.current_relocate, s.peek_relocate]), s.current_relocate, s.advance_relocate,
      Token.kind_relocate, ih, s.sight_relocate]
    rfl

theorem runStatements_relocate (hi : Movable f inner) (inBlock : Bool) (s : TokenStream) :
    runStatements inner inBlock (s.relocate f) =
      (runStatements inner inBlock s).relocate f (List.map (Stmt.map (Origin.relocate f))) := by
  fun_induction runStatements inner inBlock s with
  | case1 s hends =>
    rw [runStatements_of_ends (by rwa [s.current_relocate])]
    rfl
  -- a statement, and what is behind it
  | case2 s hends o found hfound later ih =>
    have hrun : (statement inner).run (s.relocate f) = o.relocate f _ := relocates_statement hi s
    rw [runStatements_of_ok (by rwa [s.current_relocate]) ((relocates_statement hi).ok hfound),
      hrun]
    simp only [Outcome.relocate, TokenStream.advance_relocate, TokenStream.sight_relocate] at ih ⊢
    rw [ih]
    simp only [List.map_append, List.map_cons, Option.toList_map]
    rfl
  -- a failure, behind which the closing brace is found
  | case3 s hends o e he skipped events hskip =>
    -- skipping begins where the statement stopped, which has been moved as well
    have hskipped : skipStatement inBlock 0 ((statement inner).run (s.relocate f)).rest =
        skipped.relocate f id := by
      rw [(relocates_statement hi).rest, skipStatement_relocate]
    have hclosed : (skipped.relocate f id).value := hskip
    rw [runStatements_of_closing (by rwa [s.current_relocate])
      ((relocates_statement hi).error he) (hskipped ▸ hclosed)]
    simp only [hskipped]
    rw [relocates_statement hi s]
    simp only [Outcome.relocate, events, List.map_append, List.map_cons]
    rfl
  -- a failure, behind which the sequence goes on
  | case4 s hends o e he skipped events hskip later ih =>
    have hskipped : skipStatement inBlock 0 ((statement inner).run (s.relocate f)).rest =
        skipped.relocate f id := by
      rw [(relocates_statement hi).rest, skipStatement_relocate]
    have hopen : (skipped.relocate f id).value = false := Bool.eq_false_iff.mpr hskip
    rw [runStatements_of_error (by rwa [s.current_relocate])
      ((relocates_statement hi).error he) (hskipped ▸ hopen)]
    simp only [hskipped]
    rw [relocates_statement hi s]
    simp only [Outcome.relocate, TokenStream.advance_relocate, TokenStream.sight_relocate] at ih ⊢
    rw [ih]
    simp only [events, List.map_append, List.map_cons]
    rfl

theorem relocates_statements (hi : Movable f inner) (inBlock : Bool) :
    Relocates f (List.map (Stmt.map (Origin.relocate f))) (statements inner inBlock)
      (statements inner inBlock) := by
  intro s
  rw [statements, run_always, run_always, runStatements_relocate hi]
  rfl

theorem relocates_block (hi : Movable f inner) :
    Relocates f (Block.map (Origin.relocate f)) (block inner) (block inner) := by
  refine relocates_current.bind fun opening => relocates_advance.bind fun _ => ?_
  refine (relocates_statements hi true).bind fun body => relocates_current.bind fun closing => ?_
  refine .ite (fun _ => relocates_pure ?_) fun _ => relocates_fail rfl
  rw [Block.map, Stmt.mapEach_eq_map]
  rfl

/-! ### Levels -/

theorem relocates_tooDeep {m : α → β} : Relocates f m Nested.tooDeep Nested.tooDeep :=
  relocates_current.bind fun _ => relocates_fail rfl

theorem movable_within (n : Nat) : Movable f (.within n) := by
  induction n with
  | zero => exact ⟨fun _ => relocates_tooDeep, relocates_tooDeep⟩
  | succ n ih => exact ⟨relocates_expression ih, relocates_block ih⟩

end Parser

/-- To read a stream that has been relocated is to read it and relocate what
comes of it. -/
theorem parse_relocate (f : Position → Position) (s : TokenStream) :
    parse (s.relocate f) =
      ⟨(parse s).program.map (Origin.relocate f),
        (parse s).errors.map (Diagnostic.relocate f)⟩ := by
  have key := Parser.runStatements_relocate (Parser.movable_within (f := f) maxNesting) false s
  simp only [parse, readProgram, Nested.outermost, key, Outcome.relocate, errorsOf_relocate]
  rfl

end LetFn
