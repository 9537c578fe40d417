/-
LetFn/Proofs/Semicolons.lean

A repeated semicolon changes nothing.

Two streams are read side by side; the second one has one semicolon more,
right behind one that both have (`Doubled`).  As long as a reader does not
move on from the semicolon that both have, it sees the same two tokens on both
streams.  Expressions and blocks never do: none begins with a semicolon, goes
on with one or asks for one, and none ends on one.  So they come out the same
on both streams (`Tolerates`), and so does a statement, which may end on the
semicolon.

Only two readers move on from it.  A sequence of statements goes on behind a
statement, or behind what has been skipped, and finds an empty statement more
on the second stream; and skipping within braces skips one token more.  Behind
that, both stand on the same stream.

What is read one level deeper is `Tolerant` by assumption, and
`tolerant_within` ties the knot.

Main statement: `parseTokens_repeat_semicolon`.
-/
import LetFn.Proofs.Braces.Blocks
import LetFn.Tree.Render

namespace LetFn

variable {α β : Type}
variable {s t : TokenStream}
variable {kind : Kind}

/-! ### One semicolon more -/

/-- The second stream is the first one, or the first one with one more
semicolon, right behind a semicolon of the first one. -/
inductive Doubled (s : TokenStream) : TokenStream → Prop
  | refl : Doubled s s
  | there {t : TokenStream} {us vs : List Token} {x y : Token}
      (hs : s.pending = us ++ x :: vs) (ht : t.pending = us ++ x :: y :: vs)
      (hlast : s.last = t.last) (hx : x.kind = .semicolon) (hy : y.kind = .semicolon) :
      Doubled s t

namespace Doubled

theorem current (h : Doubled s t) : s.current = t.current := by
  cases h with
  | refl => rfl
  | @there _ us vs x y hs ht hlast hx hy =>
    rcases us with - | ⟨u, us⟩
    · rw [TokenStream.current_of_pending hs, TokenStream.current_of_pending ht]
    · rw [TokenStream.current_of_pending hs, TokenStream.current_of_pending ht]

/-- Moving on together: either the further semicolon is still to come, or the
second reader has come to stand on it and will meet the first one behind it. -/
theorem advance_or_meet (h : Doubled s t) :
    Doubled s.advance t.advance ∨
      s.current.kind = .semicolon ∧ t.advance.current.kind = .semicolon ∧
        t.advance.advance = s.advance := by
  cases h with
  | refl => exact .inl .refl
  | @there _ us vs x y hs ht hlast hx hy =>
    rcases us with - | ⟨u, us⟩
    · -- the reader stands on the semicolon of both streams
      have ht' := TokenStream.pending_advance_of_pending ht
      refine .inr ⟨?_, ?_, TokenStream.ext ?_ hlast.symm⟩
      · rwa [TokenStream.current_of_pending hs]
      · rwa [TokenStream.current_of_pending ht']
      · rw [TokenStream.pending_advance_of_pending ht', TokenStream.pending_advance_of_pending hs]
    · -- the semicolons are further on
      have hs' := TokenStream.pending_advance_of_pending hs
      have ht' := TokenStream.pending_advance_of_pending ht
      exact .inl (.there hs' ht' hlast hx hy)

/-- From any other token, both readers move on alike. -/
theorem advance (h : Doubled s t) (hk : s.current.kind ≠ .semicolon) :
    Doubled s.advance t.advance :=
  h.advance_or_meet.resolve_right fun hmeet => hk hmeet.1

end Doubled

/-- Two such streams that stand on a token other than a semicolon. -/
structure Abreast (s t : TokenStream) : Prop where
  doubled : Doubled s t
  ne_semicolon : s.current.kind ≠ .semicolon

namespace Abreast

theorem advance (h : Abreast s t) : Doubled s.advance t.advance :=
  h.doubled.advance h.ne_semicolon

theorem peek (h : Abreast s t) : s.peek = t.peek := h.advance.current

theorem step (h : Abreast s t) (hk : s.peek.kind = kind) (hne : kind ≠ .semicolon) :
    Abreast s.advance t.advance :=
  ⟨h.advance, fun hs => hne (hk.symm.trans hs)⟩

end Abreast

/-! ### Runs that match -/

/-- Two runs give the same value and find the same wrong, and what they leave
differs by one semicolon at most. -/
structure Matching (o o' : Outcome α) : Prop where
  value : o.value = o'.value
  errors : errorsOf o.events = errorsOf o'.events
  rest : Doubled o.rest o'.rest

variable {inBlock : Bool} {depth : Nat}

theorem bracesAfter_semicolon (hk : kind = .semicolon) : bracesAfter depth kind = depth := by
  rw [hk]
  rfl

/-- Outside of braces, skipping ends on a semicolon. -/
theorem ne_zero_of_not_stopsOn (hk : kind = .semicolon) (h : ¬ stopsOn inBlock depth kind) :
    depth ≠ 0 := by
  rintro rfl
  rw [hk] at h
  exact h rfl

/-- Within braces, a semicolon is skipped, whatever follows. -/
theorem skipStatement_semicolon (hdepth : depth ≠ 0) (hk : s.current.kind = .semicolon) :
    skipStatement inBlock depth s =
      let o := skipStatement inBlock depth s.advance
      ⟨o.value, o.rest, s.sight :: o.events⟩ := by
  -- it neither stops on the semicolon nor before what follows it
  rw [skipStatement_of_goesOn (s := s), bracesAfter_semicolon hk]
  · simp [hk, stopsOn, hdepth]
  · simp [bracesAfter_semicolon hk, stopsBefore, hdepth]

/-- Skipping comes out the same, also where it crosses the semicolons. -/
theorem matching_skipStatement (inBlock : Bool) (depth : Nat) (h : Doubled s t) :
    Matching (skipStatement inBlock depth s) (skipStatement inBlock depth t) := by
  fun_induction skipStatement inBlock depth s generalizing t
  case case1 depth s hstop =>
    rw [skipStatement_of_stopsOn (s := t) (h.current ▸ hstop), ← h.current]
    exact ⟨rfl, rfl, h⟩
  case case2 depth s hstop later hbefore =>
    -- the next tokens differ only behind the semicolon, where skipping would not stop
    have hpeek : s.peek = t.peek := by
      rcases h.advance_or_meet with hadvance | ⟨hk, -⟩
      · exact hadvance.current
      · have hlater : later = depth := bracesAfter_semicolon hk
        simp [stopsBefore, hlater, ne_zero_of_not_stopsOn hk hstop] at hbefore
    rw [skipStatement_of_stopsBefore (s := t) (h.current ▸ hstop) (h.current ▸ hpeek ▸ hbefore)]
    exact ⟨rfl, rfl, h⟩
  case case3 depth s hstop later hbefore o ih =>
    rcases h.advance_or_meet with hadvance | ⟨hk, hk', hmeet⟩
    · -- the further semicolon is still to come
      have hpeek : s.peek = t.peek := hadvance.current
      obtain ⟨hvalue, herrors, hrest⟩ := ih hadvance
      rw [skipStatement_of_goesOn (s := t) (h.current ▸ hstop) (h.current ▸ hpeek ▸ hbefore),
        ← h.current]
      exact ⟨hvalue, herrors, hrest⟩
    · -- within braces; the second run takes one more step, and meets the first one
      have hdepth := ne_zero_of_not_stopsOn hk hstop
      have hlater : later = depth := bracesAfter_semicolon hk
      rw [skipStatement_semicolon (s := t) hdepth (h.current ▸ hk),
        skipStatement_semicolon hdepth hk', hmeet, ← hlater]
      exact ⟨rfl, rfl, .refl⟩

namespace Parser

/-! ### Parsers that do not mind -/

/-- Run on `s` and on `t`, `p` comes out the same; and if it succeeds on `s`, then it stops
where `Q` holds. -/
def Tolerates (p : Parser α) (s t : TokenStream) (Q : TokenStream → Prop) : Prop :=
  Matching (p.run s) (p.run t) ∧ ∀ a, (p.run s).value = .ok a → Q (p.run s).rest

/-- The token on which a reader stands is no semicolon. -/
def OffSemicolon (s : TokenStream) : Prop := s.current.kind ≠ .semicolon

section Laws

variable {p : Parser α} {f : α → Parser β} {a : α}
variable {P Q : TokenStream → Prop}

theorem tolerates_pure (h : Doubled s t) (hQ : Q s) : Tolerates (pure a : Parser α) s t Q :=
  ⟨⟨rfl, rfl, h⟩, fun _ _ => hQ⟩

theorem tolerates_fail {e : Diagnostic} (h : Doubled s t) :
    Tolerates (fail e : Parser α) s t Q :=
  ⟨⟨rfl, rfl, h⟩, fun _ he => nomatch he⟩

theorem Tolerates.bind (h : Tolerates p s t P)
    (h' : ∀ a s' t', Doubled s' t' → P s' → Tolerates (f a) s' t' Q) :
    Tolerates (p >>= f) s t Q := by
  unfold Tolerates at h ⊢
  rw [run_bind, run_bind]
  rcases hs : p.run s with ⟨r, s', events⟩
  rcases ht : p.run t with ⟨r', t', events'⟩
  rw [hs, ht] at h
  obtain ⟨⟨rfl, herrors, hrest⟩, hP⟩ := h
  rcases r with e | a
  · -- the first parser fails on both streams
    exact ⟨⟨rfl, herrors, hrest⟩, fun _ he => nomatch he⟩
  · obtain ⟨⟨hvalue, hlater, hend⟩, hQ⟩ := h' a s' t' hrest (hP a rfl)
    rw [after_ok, after_ok]
    refine ⟨⟨hvalue, ?_, hend⟩, hQ⟩
    rw [errorsOf_append, errorsOf_append, hlater]
    exact congrArg (· ++ _) herrors

/-- What is left has been reached by moving forward. -/
theorem Tolerates.forward (h : Tolerates p s t P) : Tolerates p s t fun s' => P s' ∧ s' ≤ s :=
  ⟨h.1, fun a ha => ⟨h.2 a ha, p.rest_le s⟩⟩

theorem tolerates_current {f : Token → Parser β} (h : Doubled s t)
    (hf : Tolerates (f s.current) s t Q) : Tolerates (current >>= f) s t Q := by
  unfold Tolerates at hf ⊢
  rw [run_bind, run_bind, run_current, run_current, ← h.current]
  exact hf

theorem tolerates_peek {f : Token → Parser β} (h : Abreast s t)
    (hf : Tolerates (f s.peek) s t Q) : Tolerates (peek >>= f) s t Q := by
  unfold Tolerates at hf ⊢
  rw [run_bind, run_bind, run_peek, run_peek, ← h.peek]
  exact hf

theorem tolerates_advance {f : Unit → Parser β} (h : Tolerates (f ()) s.advance t.advance Q) :
    Tolerates (advance >>= f) s t Q :=
  ⟨⟨h.1.value, h.1.errors, h.1.rest⟩, h.2⟩

theorem tolerates_announce {first : Token} {f : Unit → Parser β} (h : Tolerates (f ()) s t Q) :
    Tolerates (announce first >>= f) s t Q :=
  ⟨⟨h.1.value, h.1.errors, h.1.rest⟩, h.2⟩

theorem run_expect_bind (kind : Kind) (f : Token → Parser β) (s : TokenStream) :
    (expect kind >>= f).run s =
      (if s.peek.kind = kind then advance >>= fun _ => f s.peek
        else fail ⟨.unexpectedToken kind s.peek.kind, s.peek.span.start⟩).run s := by
  by_cases hk : s.peek.kind = kind
  · simp [expect, hk]
  · simp [expect, hk]

theorem tolerates_expect {f : Token → Parser β} (h : Abreast s t) (hne : kind ≠ .semicolon)
    (hf : Abreast s.advance t.advance → Tolerates (f s.peek) s.advance t.advance Q) :
    Tolerates (expect kind >>= f) s t Q := by
  unfold Tolerates
  rw [run_expect_bind, run_expect_bind, ← h.peek]
  by_cases hk : s.peek.kind = kind
  · rw [if_pos hk]
    exact tolerates_advance (hf (h.step hk hne))
  · rw [if_neg hk]
    exact tolerates_fail h.doubled

/-- A loop that no semicolon continues. -/
theorem tolerates_foldPeek {more : Kind → Bool} {stops : more .eof = false}
    {step : α → Parser α} (hmore : more .semicolon = false) (h : Abreast s t)
    (hstep : ∀ a s t, Abreast s t → more s.current.kind → Tolerates (step a) s t OffSemicolon) :
    Tolerates (foldPeek more stops step a) s t OffSemicolon := by
  -- on the turns of the loop
  induction a, s using foldPeek_induction stops generalizing t with
  | turn a s ih =>
    unfold Tolerates
    rw [run_foldPeek, run_foldPeek, ← h.peek]
    split
    · next hs =>
      -- a token that continues the loop is no semicolon
      have hnext : Abreast s.advance t.advance := by
        refine h.step rfl fun hk => ?_
        rw [hk, hmore] at hs
        cases hs
      have hturn : Tolerates (advance >>= fun _ => step a) s t fun u =>
          OffSemicolon u ∧ u ≤ s.advance :=
        tolerates_advance (hstep a _ _ hnext hs).forward
      exact hturn.bind fun b s' t' hd hoff => ih hs b s' hoff.2 ⟨hd, hoff.1⟩
    · exact tolerates_pure h.doubled h.ne_semicolon

/-- How a statement ends that ends with an expression. -/
theorem tolerates_ending {f : Token → α} (h : Abreast s t) :
    Tolerates (accept .semicolon >>= fun _ => current >>= fun last => pure (f last)) s t
      fun _ => True := by
  -- the statement may end on the semicolon of both streams, so nothing is said of where
  have haccept : Tolerates (accept .semicolon) s t fun _ => True := by
    apply tolerates_peek h
    split
    · exact ⟨⟨rfl, rfl, h.advance⟩, fun _ _ => trivial⟩
    · exact tolerates_pure h.doubled trivial
  apply haccept.bind
  intro _ s' t' h' _
  exact tolerates_current h' (tolerates_pure h' trivial)

end Laws

/-- What is read one level deeper comes out the same. -/
structure Tolerant (inner : Nested) : Prop where
  expression : ∀ p s t, Doubled s t → Tolerates (inner.expression p) s t OffSemicolon
  block : ∀ s t, Abreast s t → Tolerates inner.block s t OffSemicolon

variable {inner : Nested}

/-! ### Leading parts -/

/-- What ends where it stands. -/
theorem tolerates_done {a : α} (h : Abreast s t) : Tolerates (pure a : Parser α) s t OffSemicolon :=
  tolerates_pure h.doubled h.ne_semicolon

theorem tolerates_identifier (h : Abreast s t) : Tolerates identifier s t OffSemicolon :=
  tolerates_current h.doubled (tolerates_done h)

theorem tolerates_integer (h : Abreast s t) : Tolerates integer s t OffSemicolon := by
  apply tolerates_current h.doubled
  split
  · exact tolerates_done h
  · exact tolerates_fail h.doubled

theorem tolerates_boolean (h : Abreast s t) : Tolerates boolean s t OffSemicolon :=
  tolerates_current h.doubled (tolerates_done h)

/-- An expression behind the current token. -/
theorem tolerates_operand (hi : Tolerant inner) {p : Precedence} {f : ParsedExpr → Parser β}
    {Q : TokenStream → Prop} (h : Abreast s t)
    (hf : ∀ e s' t', Abreast s' t' → Tolerates (f e) s' t' Q) :
    Tolerates (advance >>= fun _ => inner.expression p >>= f) s t Q :=
  tolerates_advance ((hi.expression p _ _ h.advance).bind fun e s' t' hd hoff =>
    hf e s' t' ⟨hd, hoff⟩)

theorem tolerates_unary (hi : Tolerant inner) (h : Abreast s t) :
    Tolerates (unary inner) s t OffSemicolon := by
  apply tolerates_current h.doubled
  apply tolerates_operand hi h
  intro operand s' t' h'
  exact tolerates_done h'

theorem tolerates_group (hi : Tolerant inner) (h : Abreast s t) :
    Tolerates (group inner) s t OffSemicolon := by
  apply tolerates_operand hi h
  intro e s' t' h'
  exact tolerates_expect h' (by decide) tolerates_done

/-- A block behind its opening brace, which is the next token. -/
theorem tolerates_braces (hi : Tolerant inner) {f : ParsedBlock → Parser β}
    {Q : TokenStream → Prop} (h : Abreast s t)
    (hf : ∀ b s' t', Abreast s' t' → Tolerates (f b) s' t' Q) :
    Tolerates (expect .openCurly >>= fun _ => inner.block >>= f) s t Q := by
  apply tolerates_expect h (by decide)
  intro h'
  exact (hi.block _ _ h').bind fun b s' t' hd hoff => hf b s' t' ⟨hd, hoff⟩

theorem tolerates_alternative (hi : Tolerant inner) (h : Abreast s t) :
    Tolerates (alternative inner) s t OffSemicolon := by
  apply tolerates_peek h
  split
  · next hk =>
    apply tolerates_advance
    apply tolerates_braces hi (h.step hk (by decide))
    intro body s' t' h'
    exact tolerates_done h'
  · exact tolerates_done h

theorem tolerates_conditional (hi : Tolerant inner) (h : Abreast s t) :
    Tolerates (conditional inner) s t OffSemicolon := by
  apply tolerates_current h.doubled
  -- `if`, the condition in parentheses, and the branches
  apply tolerates_expect h (by decide)
  intro hopen
  apply tolerates_operand hi hopen
  intro condition s₁ t₁ h₁
  apply tolerates_expect h₁ (by decide)
  intro hclose
  apply tolerates_braces hi hclose
  intro consequence s₂ t₂ h₂
  apply (tolerates_alternative hi h₂).bind
  intro otherwise s₃ t₃ hd hoff
  exact tolerates_current hd (tolerates_pure hd hoff)

/-! ### Lists -/

section Lists

variable {item : Parser α}

theorem tolerates_separated (hitem : ∀ s t, Abreast s t → Tolerates item s t OffSemicolon)
    (h : Abreast s t) : Tolerates (separated .comma (by decide) item) s t OffSemicolon := by
  apply (hitem s t h).bind
  intro first s₁ t₁ hd hoff
  -- a comma continues the list, and no semicolon does
  refine Tolerates.bind (tolerates_foldPeek rfl ⟨hd, hoff⟩ ?_) ?_
  · intro before s₂ t₂ h₂ _
    apply (hitem s₂ t₂ h₂).bind
    intro a s₃ t₃ hd hoff
    exact tolerates_pure hd hoff
  · intro items s₂ t₂ hd hoff
    exact tolerates_pure hd hoff

theorem tolerates_listed (hitem : ∀ s t, Abreast s t → Tolerates item s t OffSemicolon)
    (h : Abreast s t) : Tolerates (listed item) s t OffSemicolon := by
  apply tolerates_peek h
  split
  · next hk => exact tolerates_advance (tolerates_done (h.step hk (by decide)))
  · apply (tolerates_separated hitem h).bind
    intro items s' t' hd hoff
    exact tolerates_expect ⟨hd, hoff⟩ (by decide) tolerates_done

end Lists

theorem tolerates_parameter (s t : TokenStream) (h : Abreast s t) :
    Tolerates parameter s t OffSemicolon :=
  tolerates_expect h (by decide) tolerates_done

theorem tolerates_function (hi : Tolerant inner) (h : Abreast s t) :
    Tolerates (function inner) s t OffSemicolon := by
  apply tolerates_current h.doubled
  apply tolerates_expect h (by decide)
  intro hopen
  apply (tolerates_listed tolerates_parameter hopen).bind
  intro names s₁ t₁ hd hoff
  apply tolerates_braces hi ⟨hd, hoff⟩
  intro body s₂ t₂ h₂
  exact tolerates_current h₂.doubled (tolerates_done h₂)

/-- No expression begins with a semicolon. -/
theorem tolerates_lead (hi : Tolerant inner) (h : Doubled s t) :
    Tolerates (lead inner) s t OffSemicolon := by
  apply tolerates_current h
  split
  · next form hform =>
    have habreast : Abreast s t := ⟨h, fun hk => by rw [hk] at hform; cases hform⟩
    cases form with
    | identifier => exact tolerates_identifier habreast
    | integer => exact tolerates_integer habreast
    | boolean => exact tolerates_boolean habreast
    | unary => exact tolerates_unary hi habreast
    | group => exact tolerates_group hi habreast
    | conditional => exact tolerates_conditional hi habreast
    | function => exact tolerates_function hi habreast
  · exact tolerates_fail h

/-! ### Links -/

theorem tolerates_binary (hi : Tolerant inner) {p : Precedence} {left : ParsedExpr}
    (h : Abreast s t) : Tolerates (binary inner p left) s t OffSemicolon := by
  apply tolerates_current h.doubled
  apply tolerates_operand hi h
  intro right s' t' h'
  exact tolerates_done h'

theorem tolerates_argument (hi : Tolerant inner) (s t : TokenStream) (h : Abreast s t) :
    Tolerates (argument inner) s t OffSemicolon :=
  tolerates_advance (hi.expression _ _ _ h.advance)

theorem tolerates_call (hi : Tolerant inner) {callee : ParsedExpr} (h : Abreast s t) :
    Tolerates (call inner callee) s t OffSemicolon := by
  apply tolerates_current h.doubled
  apply (tolerates_listed (tolerates_argument hi) h).bind
  intro arguments s' t' hd hoff
  exact tolerates_current hd (tolerates_pure hd hoff)

theorem tolerates_link (hi : Tolerant inner) (left : ParsedExpr) (h : Abreast s t) :
    Tolerates (link inner left) s t OffSemicolon := by
  apply tolerates_current h.doubled
  split
  · next form _ =>
    cases form with
    | binary => exact tolerates_binary hi h
    | call => exact tolerates_call hi h
  · exact tolerates_done h

theorem tolerates_expression (hi : Tolerant inner) (p : Precedence) (s t : TokenStream)
    (h : Doubled s t) : Tolerates (expression inner p) s t OffSemicolon := by
  apply (tolerates_lead hi h).bind
  intro left s' t' hd hoff
  refine tolerates_foldPeek ?_ ⟨hd, hoff⟩ fun before s t h _ => tolerates_link hi before h
  -- a semicolon binds looser than every operator
  exact decide_eq_false (Precedence.not_lt_lowest p)

/-! ### Statements -/

theorem tolerates_binding (hi : Tolerant inner) (h : Abreast s t) :
    Tolerates (binding inner) s t fun _ => True := by
  apply tolerates_current h.doubled
  apply tolerates_expect h (by decide)
  intro hname
  apply tolerates_expect hname (by decide)
  intro hassign
  apply tolerates_operand hi hassign
  intro value s' t' h'
  exact tolerates_ending h'

theorem tolerates_returning (hi : Tolerant inner) (h : Abreast s t) :
    Tolerates (returning inner) s t fun _ => True := by
  apply tolerates_current h.doubled
  apply tolerates_operand hi h
  intro value s' t' h'
  exact tolerates_ending h'

theorem tolerates_expressionStatement (hi : Tolerant inner) (h : Doubled s t) :
    Tolerates (expressionStatement inner) s t fun _ => True := by
  apply tolerates_current h
  apply (hi.expression .lowest s t h).bind
  intro value s' t' hd hoff
  exact tolerates_ending ⟨hd, hoff⟩

theorem tolerates_formed (hi : Tolerant inner) (form : StatementForm) (h : Abreast s t) :
    Tolerates (formed inner form) s t fun _ => True := by
  cases form with
  | binding => exact tolerates_binding hi h
  | returning => exact tolerates_returning hi h
  | block =>
    apply (hi.block s t h).bind
    intro body s' t' hd _
    exact tolerates_pure hd trivial

theorem tolerates_statement (hi : Tolerant inner) (h : Doubled s t) :
    Tolerates (statement inner) s t fun _ => True := by
  refine tolerates_current h (tolerates_announce ?_)
  by_cases hk : s.current.kind = .semicolon
  · -- the only statement that begins with a semicolon is the empty one
    rw [if_pos hk]
    exact tolerates_pure h trivial
  · rw [if_neg hk]
    split
    · next form _ =>
      apply (tolerates_formed hi form ⟨h, hk⟩).bind
      intro found s' t' hd _
      exact tolerates_pure hd trivial
    · apply (tolerates_expressionStatement hi h).bind
      intro found s' t' hd _
      exact tolerates_pure hd trivial

/-! ### Sequences and blocks -/

/-- A semicolon is an empty statement. -/
theorem runStatements_semicolon {inBlock : Bool} (hk : s.current.kind = .semicolon) :
    runStatements inner inBlock s =
      let later := runStatements inner inBlock s.advance
      ⟨later.value, later.rest, .statement s.current :: s.sight :: later.events⟩ := by
  have hends : ¬ endsSequence inBlock s.current.kind := by
    rw [hk]
    simp [endsSequence]
  -- the empty statement gives nothing and stays where it is
  have hrun := run_statement_of_semicolon inner hk
  have hvalue : ((statement inner).run s).value = .ok none := by rw [hrun]
  rw [runStatements_of_ok hends hvalue, hrun]
  rfl

/-- Behind a statement the second reader may find an empty statement more. -/
theorem matching_further {inBlock : Bool}
    (ih : ∀ {t}, Doubled s.advance t →
      Matching (runStatements inner inBlock s.advance) (runStatements inner inBlock t))
    (h : Doubled s t) :
    Matching (runStatements inner inBlock s.advance) (runStatements inner inBlock t.advance) := by
  rcases h.advance_or_meet with hadvance | ⟨-, hk, hmeet⟩
  · exact ih hadvance
  · -- the empty statement brings the second reader to where the first one is
    rw [runStatements_semicolon hk, hmeet]
    exact ⟨rfl, rfl, .refl⟩

theorem matching_runStatements (hi : Tolerant inner) (inBlock : Bool) (h : Doubled s t) :
    Matching (runStatements inner inBlock s) (runStatements inner inBlock t) := by
  fun_induction runStatements inner inBlock s generalizing t
  -- the sequence has ended
  case case1 s hends =>
    rw [runStatements_of_ends (s := t) (h.current ▸ hends)]
    exact ⟨rfl, rfl, h⟩
  -- a statement, and what is behind it
  case case2 s hends o found hfound later ih =>
    have hstatement := (tolerates_statement hi h).1
    have hlater := matching_further ih hstatement.rest
    rw [runStatements_of_ok (h.current ▸ hends) (hstatement.value ▸ hfound)]
    refine ⟨congrArg (found.toList ++ ·) hlater.value, ?_, hlater.rest⟩
    simp only [later, o, errorsOf_append, errorsOf_sight, hstatement.errors, hlater.errors]
  -- a failure behind which the closing brace of the block is found
  case case3 s hends o e he skipped events hskip =>
    have hstatement := (tolerates_statement hi h).1
    have hskipped := matching_skipStatement inBlock 0 hstatement.rest
    rw [runStatements_of_closing (h.current ▸ hends) (hstatement.value ▸ he)
      (hskipped.value ▸ hskip)]
    refine ⟨rfl, ?_, hskipped.rest⟩
    simp only [events, skipped, o, errorsOf_append, errorsOf_failure, hstatement.errors,
      hskipped.errors]
  -- a failure behind which the sequence goes on
  case case4 s hends o e he skipped events hskip later ih =>
    have hstatement := (tolerates_statement hi h).1
    have hskipped := matching_skipStatement inBlock 0 hstatement.rest
    have hlater := matching_further ih hskipped.rest
    rw [runStatements_of_error (h.current ▸ hends) (hstatement.value ▸ he)
      (hskipped.value ▸ eq_false_of_ne_true hskip)]
    refine ⟨hlater.value, ?_, hlater.rest⟩
    simp only [events, skipped, later, o, errorsOf_append, errorsOf_failure, errorsOf_sight,
      hstatement.errors, hskipped.errors, hlater.errors]

theorem tolerates_block (hi : Tolerant inner) (s t : TokenStream) (h : Abreast s t) :
    Tolerates (block inner) s t OffSemicolon := by
  have hbody : Tolerates (statements inner true) s.advance t.advance fun _ => True := by
    obtain ⟨hvalue, herrors, hrest⟩ := matching_runStatements hi true h.advance
    exact ⟨⟨congrArg Except.ok hvalue, herrors, hrest⟩, fun _ _ => trivial⟩
  refine tolerates_current h.doubled (tolerates_advance ?_)
  apply hbody.bind
  intro body s' t' hd _
  apply tolerates_current hd
  split
  · -- a block that succeeds ends on its brace, which is no semicolon
    next hclose => exact tolerates_pure hd fun hk => by rw [hk] at hclose; cases hclose
  · exact tolerates_fail hd

/-! ### Levels -/

theorem tolerates_tooDeep {Q : TokenStream → Prop} (h : Doubled s t) :
    Tolerates (Nested.tooDeep : Parser α) s t Q :=
  tolerates_current h (tolerates_fail h)

theorem tolerant_within (n : Nat) : Tolerant (.within n) := by
  -- on the levels to spare: on the last one nothing is read any more
  induction n with
  | zero => exact ⟨fun _ _ _ h => tolerates_tooDeep h, fun _ _ h => tolerates_tooDeep h.doubled⟩
  | succ n ih => exact ⟨tolerates_expression ih, tolerates_block ih⟩

end Parser

/-! ### Token lists -/

/-- One semicolon more makes the same program, with the same errors. -/
theorem parse_eq_of_doubled (h : Doubled s t) : parse s = parse t := by
  have hmatch := Parser.matching_runStatements (Parser.tolerant_within maxNesting) false h
  simp only [parse, readProgram, Nested.outermost, hmatch.value, hmatch.errors]

theorem doubled_ofTokens (file : String) {front rest : List Token} {x y : Token}
    (hfront : ∀ t ∈ front, t.kind ≠ .eof) (hrest : rest ≠ []) (hx : x.kind = .semicolon)
    (hy : y.kind = .semicolon) :
    Doubled (.ofTokens file (front ++ x :: rest)) (.ofTokens file (front ++ x :: y :: rest)) := by
  have hne {t : Token} (ht : t.kind = .semicolon) : t.kind ≠ .eof := by rw [ht]; decide
  have hxs : ∀ t ∈ front ++ [x], t.kind ≠ .eof :=
    List.forall_mem_append.mpr ⟨hfront, List.forall_mem_singleton.mpr (hne hx)⟩
  have hys : ∀ t ∈ front ++ [x] ++ [y], t.kind ≠ .eof :=
    List.forall_mem_append.mpr ⟨hxs, List.forall_mem_singleton.mpr (hne hy)⟩
  have hpending := TokenStream.pending_ofTokens_append file rest hxs
  have hpending' := TokenStream.pending_ofTokens_append file rest hys
  have hlast : (TokenStream.ofTokens file (front ++ [x] ++ rest)).last =
      (TokenStream.ofTokens file (front ++ [x] ++ [y] ++ rest)).last :=
    (TokenStream.last_ofTokens_append hxs hrest).trans
      (TokenStream.last_ofTokens_append hys hrest).symm
  simp only [List.append_assoc, List.singleton_append] at hpending hpending' hlast
  exact .there hpending hpending' hlast hx hy

/-- **A repeated semicolon changes nothing**: one more semicolon, right behind
one that stands before the end, makes the same program with the same errors,
whatever it looks like and wherever it claims to stand.  In a list that has an
end of its own, something stands behind each semicolon before that. -/
theorem parseTokens_repeat_semicolon (file : String) (front rest : List Token)
    (semicolon further : Token) (hfront : ∀ t ∈ front, t.kind ≠ .eof) (hrest : rest ≠ [])
    (hs : semicolon.kind = .semicolon) (hf : further.kind = .semicolon) :
    parseTokens file (front ++ semicolon :: further :: rest) =
      parseTokens file (front ++ semicolon :: rest) :=
  (parse_eq_of_doubled (doubled_ofTokens file hfront hrest hs hf)).symm

/-- The semicolon is skipped, within the braces of a binding without a name,
and a strange one is put behind it.  The statement behind the binding is read. -/
theorem parseTokens_repeat_semicolon_example :
    let s := TokenStream.ofSource "shell" "let { a; b } c; d"
    let front := s.pending.take 3
    let semicolon := s.pending.getD 3 s.last
    let rest := s.pending.drop 4 ++ [s.last]
    let further : Token := ⟨.semicolon, "?", s.last.span⟩
    s.toList = front ++ semicolon :: rest ∧ (∀ t ∈ front, t.kind ≠ .eof) ∧ rest ≠ [] ∧
      semicolon.kind = .semicolon ∧ further.kind = .semicolon ∧
      (parseTokens "shell" s.toList).errors.length = 1 ∧
      (parseTokens "shell" (front ++ semicolon :: further :: rest)).program.render = "d;" ∧
      parseTokens "shell" (front ++ semicolon :: further :: rest) =
        parseTokens "shell" (front ++ semicolon :: rest) := by
  intro s front semicolon rest further
  have hfront : ∀ t ∈ front, t.kind ≠ .eof := by decide +kernel
  have hrest : rest ≠ [] := by decide +kernel
  have hs : semicolon.kind = .semicolon := by decide +kernel
  exact ⟨by decide +kernel, hfront, hrest, hs, rfl, by decide +kernel, by decide +kernel,
    parseTokens_repeat_semicolon "shell" front rest semicolon further hfront hrest hs rfl⟩

end LetFn
