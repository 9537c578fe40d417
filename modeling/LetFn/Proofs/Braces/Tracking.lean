/-
LetFn/Proofs/Braces/Tracking.lean

Parsers keep count of the braces, but for one kind of failure.

A parser that succeeds has passed as many closing braces as opening ones.
One that fails stops on a token that is still to be read, or on one that is
no brace; the skipping that follows counts from there.  The exception is a
`)` that is missing behind an expression whose last token is a closing brace:
the failure leaves the reader on that brace, although it has been read, and
skipping takes it for the end of the enclosing block.  Each such failure
(`strandsOn`) leaves one brace more open than the reader knows of.

`Counts r k p s Q` says that `p`, run on `s` where a reader who comes from `r`
has left `k` braces open, keeps that count in this sense.  There is a law for
each way to put parsers together and a lemma for each parser; what is read
one level deeper is `Careful` by assumption, and `careful_within` ties the
knot.

Main statements: `careful_within`, and `reaches_runStatements` for what a
sequence of statements leaves behind, whatever is wrong in it.
-/
import LetFn.Proofs.Braces

namespace LetFn

variable {α β : Type}
variable {j k : Nat}
variable {r s t : TokenStream}

/-! ### Failures on a closing brace -/

/-- Does the failure leave its reader on a closing brace that has been read? -/
def strandsOn (s : TokenStream) (e : Diagnostic) : Bool :=
  match e.cause with
  | .unexpectedToken .closeParen _ => s.current.kind = .closeCurly
  | _ => false

/-- How many failures there are among the events from `s` on that leave the
reader on a closing brace that has been read. -/
def strandings (s : TokenStream) : List Event → Nat
  | [] => 0
  | .token _ :: later => strandings s.advance later
  | .statement _ :: later => strandings s later
  | .failure e :: later => (strandsOn s e).toNat + strandings s later

@[simp] theorem strandings_nil (s : TokenStream) : strandings s [] = 0 := rfl

@[simp] theorem strandings_sight (s t : TokenStream) (events : List Event) :
    strandings s (t.sight :: events) = strandings s.advance events := rfl

@[simp] theorem strandings_statement (s : TokenStream) (first : Token) (events : List Event) :
    strandings s (.statement first :: events) = strandings s events := rfl

@[simp] theorem strandings_failure (s : TokenStream) (e : Diagnostic) (events : List Event) :
    strandings s (.failure e :: events) = (strandsOn s e).toNat + strandings s events := rfl

theorem strandings_append (s : TokenStream) (events later : List Event) :
    strandings s (events ++ later) = strandings s events + strandings (s.behind events) later := by
  fun_induction strandings s events with
  | case1 s => simp
  | case2 s t events ih => exact ih
  | case3 s t events ih => exact ih
  | case4 s e events ih =>
    show (strandsOn s e).toNat + strandings s (events ++ later) = _
    rw [ih, Nat.add_assoc]
    rfl

theorem strandings_skipStatement (inBlock : Bool) (depth : Nat) (s : TokenStream) :
    strandings s (skipStatement inBlock depth s).events = 0 := by
  fun_induction skipStatement inBlock depth s with
  | case1 depth s h => rfl
  | case2 depth s h later h' => rfl
  | case3 depth s h later h' o ih => exact ih

/-! ### Skipping -/

/-- A token that is skipped is counted, whatever it is. -/
theorem TokenStream.Reaches.skip {d : Nat} (h : r.Reaches (k + d) s)
    (hstop : ¬ stopsOn true d s.current.kind) :
    r.Reaches (k + bracesAfter d s.current.kind) s.advance := by
  unfold bracesAfter
  split
  · next ho => exact h.step_opening ho
  · next hc =>
    cases d with
    | zero => exact absurd (by rw [hc]; rfl) hstop
    | succ d => exact h.step_closing hc
  · next ho hc => exact h.step_other ho hc

/-- Behind what has been skipped as many braces are open as outside of the
braces in which skipping began. -/
theorem reaches_skipStatement {d : Nat} (h : r.Reaches (k + d) s) :
    let o := skipStatement true d s
    if o.value then r.Reaches k o.rest ∧ o.rest.current.kind = .closeCurly
    else r.Reaches k o.rest.advance := by
  fun_induction skipStatement true d s with
  | case1 d s hstop =>
    show if decide (s.current.kind = .closeCurly) then _ else _
    by_cases he : s.current.kind = .eof
    · rw [he]
      have hs := TokenStream.kind_current_eq_eof_iff.mp he
      exact (h.at_end hs).step_other (by rw [he]; decide) (by rw [he]; decide)
    · -- skipping ends outside of all braces
      obtain ⟨rfl, hk⟩ : d = 0 ∧ (s.current.kind = .semicolon ∨ s.current.kind = .closeCurly) := by
        simpa [stopsOn, he] using hstop
      rcases hk with hk | hk
      · rw [hk]
        exact (h.passed hk rfl).reaches
      · rw [if_pos (decide_eq_true hk)]
        exact ⟨h, hk⟩
  | case2 d s hstop later hbefore =>
    -- the token before which skipping ends is the first one that is not skipped
    obtain ⟨hlater, -⟩ : later = 0 ∧ _ := by simpa [stopsBefore] using hbefore
    have hs := h.skip hstop
    rw [show bracesAfter d s.current.kind = 0 from hlater] at hs
    exact hs
  | case3 d s hstop later hbefore o ih => exact ih (h.skip hstop)

namespace Parser

/-! ### Parsers that keep count -/

/-- Where `k` braces are open, `p` reads on such that `Q` holds of their
number and of the place where it stops; if it fails, it has them open before
the token on which it stops. -/
def Counts (r : TokenStream) (k : Nat) (p : Parser α) (s : TokenStream)
    (Q : Nat → TokenStream → Prop) : Prop :=
  match (p.run s).value with
  | .ok _ => Q (k + strandings s (p.run s).events) (p.run s).rest
  | .error e => r.Reaches (k + strandings s ((p.run s).events ++ [.failure e])) (p.run s).rest

section Laws

variable {p : Parser α} {f : α → Parser β} {a : α}
variable {P Q : Nat → TokenStream → Prop}

theorem Counts.ok (h : Counts r k p s Q) (ha : (p.run s).value = .ok a) :
    Q (k + strandings s (p.run s).events) (p.run s).rest := by
  rw [Counts, ha] at h
  exact h

theorem Counts.error {e : Diagnostic} (h : Counts r k p s Q) (he : (p.run s).value = .error e) :
    r.Reaches (k + strandings s ((p.run s).events ++ [.failure e])) (p.run s).rest := by
  rw [Counts, he] at h
  exact h

/-- What is left has been reached by moving forward. -/
theorem Counts.forward (h : Counts r k p s P) : Counts r k p s fun j t => P j t ∧ t ≤ s := by
  unfold Counts at h ⊢
  split at h
  · exact ⟨h, p.rest_le s⟩
  · exact h

theorem counts_pure (h : Q k s) : Counts r k (pure a : Parser α) s Q := h

theorem Counts.bind (h : Counts r k p s P) (h' : ∀ a j t, P j t → Counts r j (f a) t Q) :
    Counts r k (p >>= f) s Q := by
  have hrest := p.rest_eq s
  unfold Counts at h ⊢
  rw [run_bind]
  rcases hrun : p.run s with ⟨e | a, t, events⟩
  · -- the first run fails, and its failure is the last event
    rw [hrun] at h
    exact h
  · rw [hrun] at h hrest
    have hlater := h' a _ t h
    unfold Counts at hlater
    rw [after_ok]
    simp only [List.append_assoc, strandings_append s, ← hrest, ← Nat.add_assoc]
    exact hlater

theorem counts_current {f : Token → Parser β} (h : Counts r k (f s.current) s Q) :
    Counts r k (current >>= f) s Q := by
  unfold Counts at h ⊢
  exact h

theorem counts_peek {f : Token → Parser β} (h : Counts r k (f s.peek) s Q) :
    Counts r k (peek >>= f) s Q := h

theorem counts_advance {f : Unit → Parser β} (h : Counts r k (f ()) s.advance Q) :
    Counts r k (advance >>= f) s Q := h

theorem counts_announce {first : Token} {f : Unit → Parser β} (h : Counts r k (f ()) s Q) :
    Counts r k (announce first >>= f) s Q := h

/-- A failure before a token that is still to be read. -/
theorem counts_fail {e : Diagnostic} (h : r.Reaches k s) (he : strandsOn s e = false) :
    Counts r k (fail e : Parser α) s Q := by
  unfold Counts
  rw [run_fail]
  show r.Reaches (k + ((strandsOn s e).toNat + 0)) s
  rw [he]
  exact h

/-- The next token is not what it has to be.  What has been read last may
close a brace only if a `)` is missing. -/
theorem counts_missing {kind found : Kind} {at_ : Position} (h : r.Passed k s)
    (hk : kind = .closeParen ∨ s.current.kind ≠ .closeCurly) :
    Counts r k (fail ⟨.unexpectedToken kind found, at_⟩ : Parser α) s Q := by
  cases h with
  | closing hc h =>
    -- the brace has been read, but counts as open from here on
    obtain rfl := hk.resolve_right (not_not_intro hc)
    have he : strandsOn s ⟨.unexpectedToken .closeParen found, at_⟩ = true := decide_eq_true hc
    unfold Counts
    rw [run_fail]
    show r.Reaches (k + ((strandsOn s _).toNat + 0)) s
    rw [he]
    exact h
  | other _ hc h =>
    apply counts_fail h
    unfold strandsOn
    split
    · exact decide_eq_false hc
    · rfl

theorem counts_expect {kind : Kind} {f : Token → Parser β} (h : r.Passed k s)
    (hk : kind = .closeParen ∨ s.current.kind ≠ .closeCurly)
    (hf : ∀ found, s.peek.kind = kind → Counts r k (f found) s.advance Q) :
    Counts r k (expect kind >>= f) s Q := by
  -- first the token by itself: it is there, or it is missing
  have hexpect : Counts r k (expect kind) s
      fun j t => j = k ∧ t = s.advance ∧ s.peek.kind = kind := by
    apply counts_peek
    split
    · next hnext => exact counts_advance (counts_pure ⟨rfl, rfl, hnext⟩)
    · exact counts_missing h hk
  apply hexpect.bind
  rintro found _ _ ⟨rfl, rfl, hnext⟩
  exact hf found hnext

/-- What has been read last is no brace. -/
theorem counts_expect_behind {first kind : Kind} {f : Token → Parser β} (h : r.Reaches k s)
    (hs : s.current.kind = first) (hb : first.isBrace = false)
    (hf : ∀ found, s.peek.kind = kind → Counts r k (f found) s.advance Q) :
    Counts r k (expect kind >>= f) s Q := by
  have hc : s.current.kind ≠ .closeCurly := hs ▸ (Kind.isBrace_eq_false_iff.mp hb).2
  exact counts_expect (h.passed hs hb) (Or.inr hc) hf

/-- A token that may follow is no brace. -/
theorem counts_accept {kind : Kind} {f : Unit → Parser β} (h : r.Passed k s)
    (hb : kind.isBrace = false) (hf : ∀ t, r.Passed k t → Counts r k (f ()) t Q) :
    Counts r k (accept kind >>= f) s Q := by
  have haccept : Counts r k (accept kind) s fun j t => j = k ∧ r.Passed k t := by
    apply counts_peek
    split
    · next hnext => exact ⟨rfl, h.reaches.passed hnext hb⟩
    · exact counts_pure ⟨rfl, h⟩
  apply haccept.bind
  rintro _ _ t ⟨rfl, ht⟩
  exact hf t ht

/-- A loop keeps count if its steps do. -/
theorem counts_foldPeek {more : Kind → Bool} {stops : more .eof = false} {step : α → Parser α}
    (h : r.Passed k s) (hstep : ∀ {a j t}, r.Passed j t → more t.peek.kind →
      Counts r j (step a) t.advance r.Passed) :
    Counts r k (foldPeek more stops step a) s r.Passed := by
  -- on the turns of the loop, with any count
  induction a, s using foldPeek_induction stops generalizing k with
  | turn a s ih =>
    have hrun := run_foldPeek more stops step a s
    split at hrun
    · next hmore =>
      -- one turn, and the rest of the loop
      have hloop : Counts r k ((advance >>= fun _ => step a) >>= foldPeek more stops step) s
          r.Passed := by
        apply (counts_advance (hstep h hmore).forward).bind
        rintro b j t ⟨ht, hle⟩
        exact ih hmore b t hle ht
      unfold Counts at hloop ⊢
      rw [hrun]
      exact hloop
    · unfold Counts
      rw [hrun]
      exact h

end Laws

/-- What is read one level deeper keeps count. -/
structure Careful (inner : Nested) : Prop where
  expression : ∀ {r k s p}, r.Reaches k s → Counts r k (inner.expression p) s r.Passed
  block : ∀ {r k s}, r.Reaches k s → s.current.kind = .openCurly →
    Counts r k inner.block s fun j t => r.Passed j t ∧ t.current.kind = .closeCurly

variable {inner : Nested}

/-! ### Leading parts -/

theorem counts_identifier (h : r.Passed k s) : Counts r k identifier s r.Passed :=
  counts_current (counts_pure h)

theorem counts_integer (h : r.Reaches k s) (hk : s.current.kind = .number) :
    Counts r k integer s r.Passed := by
  apply counts_current
  split
  · exact counts_pure (h.passed hk rfl)
  · exact counts_fail h rfl

theorem counts_boolean (h : r.Passed k s) : Counts r k boolean s r.Passed :=
  counts_current (counts_pure h)

theorem counts_unary (hi : Careful inner) (h : r.Passed k s) :
    Counts r k (unary inner) s r.Passed := by
  refine counts_current (counts_advance ?_)
  apply (hi.expression h.reaches).bind
  intro operand j t ht
  exact counts_pure ht

theorem counts_group (hi : Careful inner) (h : r.Passed k s) :
    Counts r k (group inner) s r.Passed := by
  apply counts_advance
  apply (hi.expression h.reaches).bind
  intro e j t ht
  -- here, `t` may stand on a closing brace
  apply counts_expect ht (Or.inl rfl)
  intro _ hclose
  exact counts_pure (ht.reaches.passed hclose rfl)

theorem counts_alternative (hi : Careful inner) (h : r.Passed k s) :
    Counts r k (alternative inner) s r.Passed := by
  apply counts_peek
  split
  · next helse =>
    refine counts_advance (counts_expect_behind h.reaches helse rfl ?_)
    intro _ hopen
    apply (hi.block (h.reaches.passed helse rfl).reaches hopen).bind
    intro body j t ht
    exact counts_pure ht.1
  · exact counts_pure h

theorem counts_conditional (hi : Careful inner) (h : r.Reaches k s) (hk : s.current.kind = .kwIf) :
    Counts r k (conditional inner) s r.Passed := by
  refine counts_current (counts_expect_behind h hk rfl ?_)
  intro _ hopen
  have hcondition := ((h.passed hk rfl).reaches.passed hopen rfl).reaches
  refine counts_advance ((hi.expression hcondition).bind ?_)
  intro condition i t ht
  -- here, `t` may stand on a closing brace
  apply counts_expect ht (Or.inl rfl)
  intro _ hclose
  apply counts_expect_behind ht.reaches hclose rfl
  intro _ hcurly
  apply (hi.block (ht.reaches.passed hclose rfl).reaches hcurly).bind
  rintro consequence j u ⟨hu, -⟩
  apply (counts_alternative hi hu).bind
  intro otherwise l v hv
  exact counts_current (counts_pure hv)

/-! ### Lists -/

section Lists

variable {item : Parser α}

/-- Items with commas between them, if each item starts behind a token that
is no closing brace. -/
theorem counts_separated (hitem : ∀ {j t}, r.Passed j t → t.current.kind ≠ .closeCurly →
      Counts r j item t r.Passed) (h : r.Passed k s) (hk : s.current.kind ≠ .closeCurly) :
    Counts r k (separated .comma (by decide) item) s r.Passed := by
  apply (hitem h hk).bind
  intro first i t ht
  refine Counts.bind (counts_foldPeek ht ?_) ?_
  · -- behind the comma stands the next item
    intro before j u hu hmore
    have hcomma : u.peek.kind = .comma := of_decide_eq_true hmore
    refine (hitem (hu.reaches.passed hcomma rfl) ?_).bind ?_
    · exact fun hc => absurd (hcomma.symm.trans hc) (by decide)
    · intro a l v hv
      exact counts_pure hv
  · intro items j u hu
    exact counts_pure hu

theorem counts_listed (hitem : ∀ {j t}, r.Passed j t → t.current.kind ≠ .closeCurly →
      Counts r j item t r.Passed) (h : r.Reaches k s) (hk : s.current.kind = .openParen) :
    Counts r k (listed item) s fun j t => r.Reaches j t ∧ t.current.kind = .closeParen := by
  have hs : r.Passed k s := h.passed hk rfl
  apply counts_peek
  split
  · next hclose => exact counts_advance (counts_pure ⟨hs.reaches, hclose⟩)
  · apply (counts_separated hitem hs (by rw [hk]; decide)).bind
    intro items j t ht
    -- here, `t` may stand on a closing brace
    apply counts_expect ht (Or.inl rfl)
    intro _ hclose
    exact counts_pure ⟨ht.reaches, hclose⟩

end Lists

theorem counts_parameter (h : r.Passed k s) (hk : s.current.kind ≠ .closeCurly) :
    Counts r k parameter s r.Passed := by
  apply counts_expect h (Or.inr hk)
  intro _ hname
  exact counts_pure (h.reaches.passed hname rfl)

theorem counts_function (hi : Careful inner) (h : r.Reaches k s) (hk : s.current.kind = .kwFn) :
    Counts r k (function inner) s r.Passed := by
  refine counts_current (counts_expect_behind h hk rfl ?_)
  intro _ hopen
  apply (counts_listed counts_parameter (h.passed hk rfl).reaches hopen).bind
  rintro names j t ⟨ht, hclose⟩
  apply counts_expect_behind ht hclose rfl
  intro _ hcurly
  apply (hi.block (ht.passed hclose rfl).reaches hcurly).bind
  rintro body i u ⟨hu, -⟩
  exact counts_current (counts_pure hu)

theorem counts_lead (hi : Careful inner) (h : r.Reaches k s) :
    Counts r k (lead inner) s r.Passed := by
  apply counts_current
  split
  · next form hform =>
    -- no form begins with a brace, so that the first token can be read in every case
    cases hs : s.current.kind
    all_goals rw [hs] at hform; cases hform
    case identifier => exact counts_identifier (h.passed hs rfl)
    case number => exact counts_integer h hs
    case kwTrue | kwFalse => exact counts_boolean (h.passed hs rfl)
    case not | dash => exact counts_unary hi (h.passed hs rfl)
    case openParen => exact counts_group hi (h.passed hs rfl)
    case kwIf => exact counts_conditional hi h hs
    case kwFn => exact counts_function hi h hs
  · exact counts_fail h rfl

/-! ### Links -/

theorem counts_binary (hi : Careful inner) {p : Precedence} {left : ParsedExpr}
    (h : r.Passed k s) : Counts r k (binary inner p left) s r.Passed := by
  refine counts_current (counts_advance ?_)
  apply (hi.expression h.reaches).bind
  intro right j t ht
  exact counts_pure ht

theorem counts_argument (hi : Careful inner) (h : r.Passed k s) :
    Counts r k (argument inner) s r.Passed :=
  counts_advance (hi.expression h.reaches)

theorem counts_call (hi : Careful inner) {callee : ParsedExpr} (h : r.Reaches k s)
    (hk : s.current.kind = .openParen) : Counts r k (call inner callee) s r.Passed := by
  apply counts_current
  apply (counts_listed (fun h _ => counts_argument hi h) h hk).bind
  rintro arguments j t ⟨ht, hclose⟩
  exact counts_current (counts_pure (ht.passed hclose rfl))

theorem counts_link (hi : Careful inner) {left : ParsedExpr} (h : r.Reaches k s)
    (hk : Precedence.lowest < s.current.kind.precedence) :
    Counts r k (link inner left) s r.Passed := by
  have hs : r.Passed k s := h.passed rfl (Kind.isBrace_eq_false_of_lt hk)
  apply counts_current
  split
  · next form hform =>
    cases form with
    | binary => exact counts_binary hi hs
    | call => exact counts_call hi h (Kind.link?_eq_call_iff.mp hform)
  · exact counts_pure hs

/-! ### Expressions -/

theorem counts_expression (hi : Careful inner) {p : Precedence} (h : r.Reaches k s) :
    Counts r k (expression inner p) s r.Passed := by
  apply (counts_lead hi h).bind
  intro left j t ht
  apply counts_foldPeek ht
  intro before i u hu hmore
  exact counts_link hi hu.reaches
    (Nat.lt_of_le_of_lt (Nat.zero_le _) (of_decide_eq_true hmore))

/-! ### Statements -/

/-- How a statement ends that ends with an expression. -/
theorem counts_ending {f : Token → α} (h : r.Passed k s) :
    Counts r k (accept .semicolon >>= fun _ => current >>= fun last => pure (f last)) s
      r.Passed := by
  apply counts_accept h rfl
  intro t ht
  exact counts_current (counts_pure ht)

theorem counts_binding (hi : Careful inner) (h : r.Reaches k s) (hk : s.current.kind = .kwLet) :
    Counts r k (binding inner) s r.Passed := by
  refine counts_current (counts_expect_behind h hk rfl ?_)
  intro _ hname
  have hs := (h.passed hk rfl).reaches
  apply counts_expect_behind hs hname rfl
  intro _ hassign
  have hvalue := ((hs.passed hname rfl).reaches.passed hassign rfl).reaches
  refine counts_advance ((hi.expression hvalue).bind ?_)
  intro value j t ht
  exact counts_ending ht

theorem counts_returning (hi : Careful inner) (h : r.Reaches k s)
    (hk : s.current.kind = .kwReturn) : Counts r k (returning inner) s r.Passed := by
  refine counts_current (counts_advance ?_)
  apply (hi.expression (h.passed hk rfl).reaches).bind
  intro value j t ht
  exact counts_ending ht

theorem counts_expressionStatement (hi : Careful inner) (h : r.Reaches k s) :
    Counts r k (expressionStatement inner) s r.Passed := by
  refine counts_current ((hi.expression h).bind ?_)
  intro value j t ht
  exact counts_ending ht

theorem counts_blockStatement (hi : Careful inner) (h : r.Reaches k s)
    (hk : s.current.kind = .openCurly) : Counts r k (blockStatement inner) s r.Passed := by
  apply (hi.block h hk).bind
  rintro body j t ⟨ht, -⟩
  exact counts_pure ht

theorem counts_statement (hi : Careful inner) (h : r.Reaches k s) :
    Counts r k (statement inner) s r.Passed := by
  refine counts_current (counts_announce ?_)
  split
  · next hk => exact counts_pure (h.passed hk rfl)
  · split
    · -- the form is told by the first token
      next form hform =>
      have hformed : Counts r k (formed inner form) s r.Passed := by
        cases hs : s.current.kind
        all_goals rw [hs] at hform; cases hform
        case kwLet => exact counts_binding hi h hs
        case kwReturn => exact counts_returning hi h hs
        case openCurly => exact counts_blockStatement hi h hs
      apply hformed.bind
      intro found j t ht
      exact counts_pure ht
    · apply (counts_expressionStatement hi h).bind
      intro found j t ht
      exact counts_pure ht

/-! ### Sequences of statements -/

/-- What has been skipped behind a failure does not matter. -/
theorem strandings_skipped {events : List Event} {e : Diagnostic} (ht : t = s.behind events) :
    strandings s (events ++ .failure e :: (skipStatement true 0 t).events) =
      strandings s (events ++ [.failure e]) := by
  simp only [strandings_append, strandings_failure, strandings_nil, ← ht,
    strandings_skipStatement]

/-- What a sequence of statements leaves behind, whatever is wrong in it. -/
theorem reaches_runStatements (hi : Careful inner) (h : r.Reaches k s) :
    let o := runStatements inner true s
    r.Reaches (k + strandings s o.events) o.rest ∧ endsSequence true o.rest.current.kind := by
  -- `k` is general, as each failure on a closing brace leaves one brace more open
  fun_induction runStatements inner true s generalizing k
  case case1 s hends => exact ⟨h, hends⟩
  -- a statement that is read
  case case2 s hends o found hfound later ih =>
    have hread := ((counts_statement hi h).ok hfound).reaches
    show r.Reaches (k + strandings s (o.events ++ o.rest.sight :: later.events)) later.rest ∧ _
    rw [strandings_append, ← (statement inner).rest_eq s, strandings_sight, ← Nat.add_assoc]
    exact ih hread
  -- a failure, and what is skipped runs up to the brace of the block
  case case3 s hends o e he skipped events hskip =>
    have hstop := reaches_skipStatement (d := 0) ((counts_statement hi h).error he)
    rw [if_pos hskip] at hstop
    show r.Reaches (k + strandings s (o.events ++ .failure e :: skipped.events)) skipped.rest ∧ _
    rw [strandings_skipped ((statement inner).rest_eq s), hstop.2]
    exact ⟨hstop.1, rfl⟩
  -- a failure, and the sequence goes on behind what is skipped
  case case4 s hends o e he skipped events hskip later ih =>
    have hstop := reaches_skipStatement (d := 0) ((counts_statement hi h).error he)
    rw [if_neg hskip] at hstop
    have hrest : s.behind (o.events ++ .failure e :: skipped.events) = skipped.rest :=
      behind_skipStatement ((statement inner).rest_eq s)
    show r.Reaches (k + strandings s (o.events ++ .failure e :: skipped.events ++
      skipped.rest.sight :: later.events)) later.rest ∧ _
    rw [strandings_append, hrest, strandings_skipped ((statement inner).rest_eq s),
      strandings_sight, ← Nat.add_assoc]
    exact ih hstop

/-! ### Blocks -/

/-- The statements of a block are read with its own brace open as well. -/
theorem counts_statements (hi : Careful inner) (h : r.Reaches (k + 1) s) :
    Counts r k (statements inner true) s
      fun j t => r.Reaches (j + 1) t ∧ endsSequence true t.current.kind := by
  have hstop := reaches_runStatements hi h
  simp only [Nat.add_right_comm k 1] at hstop
  exact hstop

theorem counts_block (hi : Careful inner) (h : r.Reaches k s) (hk : s.current.kind = .openCurly) :
    Counts r k (block inner) s fun j t => r.Passed j t ∧ t.current.kind = .closeCurly := by
  refine counts_current (counts_advance ?_)
  apply (counts_statements hi (h.step_opening hk)).bind
  rintro body j t ⟨ht, hends⟩
  apply counts_current
  split
  · next hclose => exact counts_pure ⟨.closing hclose ht, hclose⟩
  · next hclose =>
    -- the source is over, and what is open does not matter any more
    have he : t.current.kind = .eof := by simpa [endsSequence, hclose] using hends
    exact counts_fail (ht.at_end (TokenStream.kind_current_eq_eof_iff.mp he)) rfl

/-! ### Levels -/

theorem careful_within (n : Nat) : Careful (.within n) := by
  induction n with
  | zero =>
    constructor
    · intro r k s p h
      exact counts_current (counts_fail h rfl)
    · intro r k s h _
      exact counts_current (counts_fail h rfl)
  | succ n ih => exact ⟨counts_expression ih, counts_block ih⟩

end Parser

end LetFn
