/-
LetFn/Proofs/Boundaries/Steady.lean

No parser gets past a boundary.

One lemma for each parser says that it comes out the same on two sources that
are alike up to a boundary (`Agrees`).  What is read one level deeper is
`Steady` by assumption, and `steady_within` ties the knot.

Main statements: `steady_within`, and `agrees_statement` for what a whole
statement does before a boundary.
-/
import LetFn.Proofs.Boundaries

namespace LetFn

namespace Parser

variable {x y s t : TokenStream}
variable {d : Nat}

/-- What is read one level deeper does not get past a boundary. -/
structure Steady (x y : TokenStream) (inner : Nested) : Prop where
  expression : ∀ {d s t p}, Twins x y d s t →
    Agrees x y d (inner.expression p) s t (Following x y d)
  block : ∀ {d s t}, Standing x y d s t → s.current.kind = .openCurly →
    Agrees x y d inner.block s t (Following x y d)

variable {inner : Nested}

/-! ### Leading parts -/

theorem agrees_identifier (h : Following x y d s t) :
    Agrees x y d identifier s t (Following x y d) :=
  agrees_current h.current (agrees_pure h)

theorem agrees_integer (h : Following x y d s t) :
    Agrees x y d integer s t (Following x y d) := by
  apply agrees_current h.current
  split
  · exact agrees_pure h
  · exact agrees_fail h.twins

theorem agrees_boolean (h : Following x y d s t) :
    Agrees x y d boolean s t (Following x y d) :=
  agrees_current h.current (agrees_pure h)

theorem agrees_unary (hi : Steady x y inner) (h : Following x y d s t) :
    Agrees x y d (unary inner) s t (Following x y d) := by
  refine agrees_current h.current (agrees_advance ?_)
  apply (hi.expression h.behind).bind
  intro operand s' t' h'
  exact agrees_pure h'

theorem agrees_group (hxy : Alike x y) (hi : Steady x y inner) (h : Following x y d s t) :
    Agrees x y d (group inner) s t (Following x y d) := by
  apply agrees_advance
  apply (hi.expression h.behind).bind
  intro e s' t' h'
  apply agrees_expect hxy h' rfl
  intro _ hclose hk
  exact agrees_pure (hclose.following hk rfl)

theorem agrees_alternative (hxy : Alike x y) (hi : Steady x y inner) (h : Following x y d s t) :
    Agrees x y d (alternative inner) s t (Following x y d) := by
  refine agrees_ifPeek hxy h rfl ?_ (agrees_pure h)
  intro helse hk
  apply agrees_advance
  apply agrees_expect hxy (helse.following hk rfl) rfl
  intro _ hopen hk
  apply (hi.block hopen hk).bind
  intro body s' t' h'
  exact agrees_pure h'

theorem agrees_conditional (hxy : Alike x y) (hi : Steady x y inner) (h : Following x y d s t) :
    Agrees x y d (conditional inner) s t (Following x y d) := by
  apply agrees_current h.current
  apply agrees_expect hxy h rfl
  intro _ hopen hk
  apply agrees_advance
  apply (hi.expression (hopen.following hk rfl).behind).bind
  -- none of the tokens that are asked for is a boundary
  intro condition s₁ t₁ h₁
  apply agrees_expect hxy h₁ rfl
  intro _ hclose hk
  apply agrees_expect hxy (hclose.following hk rfl) rfl
  intro _ hcurly hk
  apply (hi.block hcurly hk).bind
  intro consequence s₂ t₂ h₂
  apply (agrees_alternative hxy hi h₂).bind
  intro otherwise s₃ t₃ h₃
  exact agrees_current h₃.current (agrees_pure h₃)

/-! ### Lists -/

section Lists

variable {item : Parser α}

theorem agrees_separated (hxy : Alike x y)
    (hitem : ∀ {s t}, Following x y d s t → Agrees x y d item s t (Following x y d))
    (h : Following x y d s t) :
    Agrees x y d (separated .comma (by decide) item) s t (Following x y d) := by
  apply (hitem h).bind
  intro first s₁ t₁ h₁
  refine Agrees.bind (agrees_foldPeek hxy ?_ h₁ ?_) ?_
  · intro k hk
    -- a comma is no boundary
    rw [of_decide_eq_true hk]
    rfl
  · intro before s t hcomma hk
    apply (hitem (hcomma.following (of_decide_eq_true hk) rfl)).bind
    intro a s' t' h'
    exact agrees_pure h'
  · intro items s' t' h'
    exact agrees_pure h'

theorem agrees_listed (hxy : Alike x y)
    (hitem : ∀ {s t}, Following x y d s t → Agrees x y d item s t (Following x y d))
    (h : Following x y d s t) : Agrees x y d (listed item) s t (Following x y d) := by
  refine agrees_ifPeek hxy h rfl ?_ ?_
  · intro hclose hk
    exact agrees_advance (agrees_pure (hclose.following hk rfl))
  · apply (agrees_separated hxy hitem h).bind
    intro items s' t' h'
    apply agrees_expect hxy h' rfl
    intro _ hclose hk
    exact agrees_pure (hclose.following hk rfl)

end Lists

theorem agrees_parameter (hxy : Alike x y) (h : Following x y d s t) :
    Agrees x y d parameter s t (Following x y d) := by
  apply agrees_expect hxy h rfl
  intro _ hname hk
  exact agrees_pure (hname.following hk rfl)

theorem agrees_function (hxy : Alike x y) (hi : Steady x y inner) (h : Following x y d s t) :
    Agrees x y d (function inner) s t (Following x y d) := by
  apply agrees_current h.current
  apply agrees_expect hxy h rfl
  intro _ hopen hk
  apply (agrees_listed hxy (agrees_parameter hxy) (hopen.following hk rfl)).bind
  intro names s₁ t₁ h₁
  apply agrees_expect hxy h₁ rfl
  intro _ hcurly hk
  apply (hi.block hcurly hk).bind
  intro body s₂ t₂ h₂
  exact agrees_current h₂.current (agrees_pure h₂)

/-- No expression begins with a boundary. -/
theorem run_lead_of_isBoundary (h : s.current.kind.isBoundary) :
    (lead inner).run s =
      ⟨.error ⟨.noExpression s.current.kind s.current.text, s.current.span.start⟩, s, []⟩ := by
  simp [lead, Kind.lead?_of_isBoundary h]

theorem agrees_lead (hxy : Alike x y) (hi : Steady x y inner) (h : Twins x y d s t) :
    Agrees x y d (lead inner) s t (Following x y d) := by
  rcases h.cases with ⟨-, rfl, rfl⟩ | h'
  · -- both stand on the boundary, and neither can begin an expression
    unfold Agrees
    rw [run_lead_of_isBoundary hxy.left, run_lead_of_isBoundary hxy.right]
    exact ⟨.nil, .inr ⟨_, _, rfl, rfl, fun heq => by rw [heq], h⟩⟩
  apply agrees_current h'.current
  split
  · next form hform =>
    -- no form begins with a brace, so that the first token can be read in every case
    cases hs : s.current.kind
    all_goals rw [hs] at hform; cases hform
    case identifier => exact agrees_identifier (h'.following hs rfl)
    case number => exact agrees_integer (h'.following hs rfl)
    case kwTrue | kwFalse => exact agrees_boolean (h'.following hs rfl)
    case not | dash => exact agrees_unary hi (h'.following hs rfl)
    case openParen => exact agrees_group hxy hi (h'.following hs rfl)
    case kwIf => exact agrees_conditional hxy hi (h'.following hs rfl)
    case kwFn => exact agrees_function hxy hi (h'.following hs rfl)
  · exact agrees_fail h

/-! ### Links -/

theorem agrees_binary (hi : Steady x y inner) {p : Precedence} {left : ParsedExpr}
    (h : Following x y d s t) : Agrees x y d (binary inner p left) s t (Following x y d) := by
  refine agrees_current h.current (agrees_advance ?_)
  apply (hi.expression h.behind).bind
  intro right s' t' h'
  exact agrees_pure h'

theorem agrees_argument (hi : Steady x y inner) (h : Following x y d s t) :
    Agrees x y d (argument inner) s t (Following x y d) :=
  agrees_advance (hi.expression h.behind)

theorem agrees_call (hxy : Alike x y) (hi : Steady x y inner) {callee : ParsedExpr}
    (h : Following x y d s t) : Agrees x y d (call inner callee) s t (Following x y d) := by
  apply agrees_current h.current
  apply (agrees_listed hxy (agrees_argument hi) h).bind
  intro arguments s' t' h'
  exact agrees_current h'.current (agrees_pure h')

theorem agrees_link (hxy : Alike x y) (hi : Steady x y inner) {left : ParsedExpr}
    (h : Following x y d s t) : Agrees x y d (link inner left) s t (Following x y d) := by
  apply agrees_current h.current
  split
  · next form hform =>
    cases form with
    | binary => exact agrees_binary hi h
    | call => exact agrees_call hxy hi h
  · exact agrees_pure h

/-! ### Expressions -/

theorem agrees_expression (hxy : Alike x y) (hi : Steady x y inner) {p : Precedence}
    (h : Twins x y d s t) : Agrees x y d (expression inner p) s t (Following x y d) := by
  apply (agrees_lead hxy hi h).bind
  intro left s' t' h'
  -- what binds tighter than asked for binds at all, and no boundary does
  have hlinks {k : Kind} (hk : decide (p < k.precedence)) : Precedence.lowest < k.precedence :=
    Nat.lt_of_le_of_lt (Nat.zero_le _) (of_decide_eq_true hk)
  refine agrees_foldPeek hxy ?_ h' ?_
  · intro k hk
    rw [Bool.eq_false_iff]
    intro hb
    have hlt := hlinks hk
    rw [Kind.precedence_of_isBoundary hb] at hlt
    exact Precedence.not_lt_lowest _ hlt
  · intro before s t hnext hk
    exact agrees_link hxy hi
      (hnext.following rfl (Kind.isBrace_eq_false_of_lt (hlinks hk)))

/-! ### Statements -/

/-- How a statement ends that ends with an expression. -/
theorem agrees_ending {f : Token → α} (hxy : Alike x y) (h : Following x y d s t) :
    Agrees x y d (accept .semicolon >>= fun _ => current >>= fun last => pure (f last)) s t
      (Ended x y d) := by
  apply agrees_accept hxy h
  intro s' t' h'
  exact agrees_current (h'.current hxy) (agrees_pure h')

theorem agrees_binding (hxy : Alike x y) (hi : Steady x y inner) (h : Following x y d s t) :
    Agrees x y d (binding inner) s t (Ended x y d) := by
  apply agrees_current h.current
  apply agrees_expect hxy h rfl
  intro _ hname hk
  apply agrees_expect hxy (hname.following hk rfl) rfl
  intro _ hassign hk
  apply agrees_advance
  apply (hi.expression (hassign.following hk rfl).behind).bind
  intro value s' t' h'
  exact agrees_ending hxy h'

theorem agrees_returning (hxy : Alike x y) (hi : Steady x y inner) (h : Following x y d s t) :
    Agrees x y d (returning inner) s t (Ended x y d) := by
  refine agrees_current h.current (agrees_advance ?_)
  apply (hi.expression h.behind).bind
  intro value s' t' h'
  exact agrees_ending hxy h'

theorem agrees_expressionStatement (hxy : Alike x y) (hi : Steady x y inner)
    (h : Standing x y d s t) : Agrees x y d (expressionStatement inner) s t (Ended x y d) := by
  apply agrees_current h.current
  apply (hi.expression h.twins).bind
  intro value s' t' h'
  exact agrees_ending hxy h'

theorem agrees_blockStatement (hi : Steady x y inner) (h : Standing x y d s t)
    (hk : s.current.kind = .openCurly) :
    Agrees x y d (blockStatement inner) s t (Ended x y d) := by
  apply (hi.block h hk).bind
  intro body s' t' h'
  exact agrees_pure (.before h')

theorem agrees_formed (hxy : Alike x y) (hi : Steady x y inner) (h : Standing x y d s t)
    {form : StatementForm} (hform : s.current.kind.statementForm? = some form) :
    Agrees x y d (formed inner form) s t (Ended x y d) := by
  cases hs : s.current.kind
  all_goals rw [hs] at hform; cases hform
  case kwLet => exact agrees_binding hxy hi (h.following hs rfl)
  case kwReturn => exact agrees_returning hxy hi (h.following hs rfl)
  case openCurly => exact agrees_blockStatement hi h hs

/-- A statement that begins before the boundary. -/
theorem agrees_statement (hxy : Alike x y) (hi : Steady x y inner) (h : Standing x y d s t) :
    Agrees x y d (statement inner) s t (Ended x y d) := by
  refine agrees_current h.current (agrees_announce ?_)
  split
  · -- the empty statement, on a semicolon that both share
    next hk => exact agrees_pure (.before (h.following hk rfl))
  · split
    · next form hform =>
      apply (agrees_formed hxy hi h hform).bind
      intro found s' t' h'
      exact agrees_pure h'
    · apply (agrees_expressionStatement hxy hi h).bind
      intro found s' t' h'
      exact agrees_pure h'

/-! ### Sequences of statements -/

/-- Where a statement fails in one run it fails in the other one, and skipping ends
alike: both find the closing brace of the block, or both go on behind it. -/
theorem failure_twins {e : Diagnostic} (hxy : Alike x y) (hi : Steady x y inner)
    (h : Standing x y (d + 1) s t) (he : ((statement inner).run s).value = .error e) :
    let o := (statement inner).run s
    let o' := (statement inner).run t
    let skipped := skipStatement true 0 o.rest
    let skipped' := skipStatement true 0 o'.rest
    ∃ e', o'.value = .error e' ∧ skipped.value = skipped'.value ∧
      Matches x y t (o.events ++ .failure e :: skipped.events)
        (o'.events ++ .failure e' :: skipped'.events) ∧
      if skipped.value then Standing x y (d + 1) skipped.rest skipped'.rest ∧
          skipped.rest.current.kind = .closeCurly
        else Standing x y (d + 1) skipped.rest.advance skipped'.rest.advance := by
  have hstatement := agrees_statement hxy hi h
  obtain ⟨e', he', heq, htwins⟩ := hstatement.error he
  -- the failure leaves the second reader before the boundary, so not at its end
  have hne : ((statement inner).run t).rest.current.kind ≠ .eof :=
    htwins.standing.current ▸ htwins.standing.ne_eof
  obtain ⟨hvalue, hstop⟩ := skipStatement_twins (b := 0) htwins.standing
  refine ⟨e', he', hvalue, hstatement.1.append ?_, hstop⟩
  rw [← (statement inner).rest_eq t]
  exact .failure heq hne matches_skipStatement

/-- The statements of a block, whatever is wrong with them, are over before the boundary. -/
theorem runStatements_twins (hxy : Alike x y) (hi : Steady x y inner)
    (h : Standing x y (d + 1) s t) :
    let o := runStatements inner true s
    let o' := runStatements inner true t
    o.value = o'.value ∧ Matches x y t o.events o'.events ∧
      Standing x y (d + 1) o.rest o'.rest ∧ o.rest.current.kind = .closeCurly := by
  fun_induction runStatements inner true s generalizing t
  case case1 s hends =>
    rw [runStatements_of_ends (s := t) (h.current ▸ hends)]
    exact ⟨rfl, .nil, h, by simpa [endsSequence, h.ne_eof] using hends⟩
  -- a statement, which is over before the boundary, as braces are open
  case case2 s hends o found hfound later ih =>
    have hstatement := agrees_statement hxy hi h
    obtain ⟨hfound', hended⟩ := hstatement.ok hfound
    obtain ⟨hvalue, hlater, hend⟩ := ih hended.following.behind.standing
    rw [runStatements_of_ok (h.current ▸ hends) hfound']
    refine ⟨congrArg (found.toList ++ ·) hvalue, hstatement.1.append ?_, hend⟩
    rw [← (statement inner).rest_eq t]
    exact hlater
  -- a failure, behind which both find the closing brace of the block
  case case3 s hends o e he skipped events hskip =>
    obtain ⟨e', he', hvalue, hmatch, hstop⟩ := failure_twins hxy hi h he
    rw [if_pos hskip] at hstop
    rw [runStatements_of_closing (h.current ▸ hends) he' (hvalue ▸ hskip)]
    exact ⟨rfl, hmatch, hstop⟩
  -- a failure, behind which both go on
  case case4 s hends o e he skipped events hskip later ih =>
    obtain ⟨e', he', hvalue, hmatch, hstop⟩ := failure_twins hxy hi h he
    rw [if_neg hskip] at hstop
    obtain ⟨hvalue', hlater, hend⟩ := ih hstop
    rw [runStatements_of_error (h.current ▸ hends) he' (hvalue ▸ eq_false_of_ne_true hskip)]
    refine ⟨hvalue', hmatch.append ?_, hend⟩
    rw [behind_skipStatement ((statement inner).rest_eq t)]
    exact hlater

/-! ### Blocks -/

theorem agrees_statements (hxy : Alike x y) (hi : Steady x y inner)
    (h : Standing x y (d + 1) s t) :
    Agrees x y d (statements inner true) s t
      fun s' t' => Standing x y (d + 1) s' t' ∧ s'.current.kind = .closeCurly := by
  obtain ⟨hvalue, hmatch, hend⟩ := runStatements_twins hxy hi h
  exact ⟨hmatch, .inl ⟨_, rfl, congrArg Except.ok hvalue.symm, hend⟩⟩

theorem agrees_block (hxy : Alike x y) (hi : Steady x y inner) (h : Standing x y d s t)
    (hk : s.current.kind = .openCurly) :
    Agrees x y d (block inner) s t (Following x y d) := by
  have hbehind := h.behind
  -- the brace counts for the content
  rw [hk] at hbehind
  refine agrees_current h.current (agrees_advance ?_)
  apply (agrees_statements hxy hi hbehind.standing).bind
  rintro body s' t' ⟨h', hclose⟩
  apply agrees_current h'.current
  rw [if_pos hclose]
  exact agrees_pure (h'.following_closing hclose)

/-! ### Levels -/

theorem steady_within (hxy : Alike x y) (n : Nat) : Steady x y (.within n) := by
  induction n with
  -- on the levels; at the last one both fail on the token at hand
  | zero =>
    constructor
    · intro d s t p h
      exact agrees_fail_current h
    · intro d s t h _
      exact agrees_fail_current h.twins
  | succ n ih => exact ⟨agrees_expression hxy ih, agrees_block hxy ih⟩

end Parser

end LetFn
