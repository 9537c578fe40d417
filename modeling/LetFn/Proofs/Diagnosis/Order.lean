/-
LetFn/Proofs/Diagnosis/Order.lean

Diagnostics come in the order of the source.

A diagnostic points at the current token of the reader who finds it, or at the
next one, and is kept only later: a block keeps what is wrong with its
statements before the construct around it fails, and recovery may stop before
the token that has been blamed.  What holds all the same is that nothing is
found in front of what has been found before.

`p.Progresses m s` says so of a run of `p` on `s`: all that is wrong in it,
the failure of the run included, lies in order, from byte `m` up to the token
behind the one on which the run stops.  A parser that takes over there has not
looked at that token yet, so that runs can be put together one after the other
(`Progresses.bind`).  The law of `expect` says more than that: a parser behind
it may blame the very token that has been expected.

What is read one level deeper is `Advancing` by assumption, and
`advancing_within` ties the knot.

Main statement: `pairwise_errors_parseSource`.
-/
import LetFn.Proofs.Diagnosis

namespace LetFn

variable {α β : Type}
variable {s t : TokenStream}
variable {m n k : Nat}
variable {e : Diagnostic}
variable {ds es : List Diagnostic}

/-! ### Tokens in order -/

namespace TokenStream

/-- Each token of the stream begins where an earlier one begins, or behind it. -/
def Ascending (s : TokenStream) : Prop :=
  s.toList.Pairwise fun t u => t.span.start.offset ≤ u.span.start.offset

/-- Where the current token begins. -/
def place (s : TokenStream) : Nat := s.current.span.start.offset

theorem Ascending.mono (h : s.Ascending) (hle : t ≤ s) : t.Ascending := by
  have hsuffix : t.toList <:+ s.toList := by
    obtain ⟨us, hus⟩ := hle.2
    exact ⟨us, by rw [toList, toList, ← List.append_assoc, hus, hle.1]⟩
  exact h.sublist hsuffix.sublist

theorem advance_le_advance (h : t ≤ s) : t.advance ≤ s.advance := by
  refine ⟨h.1, ?_⟩
  obtain ⟨us, hus⟩ := h.2
  rw [pending_advance, pending_advance, ← hus]
  rcases us with - | ⟨u, us⟩
  · -- both move on from the same token, or else the shorter one is behind already
    exact List.suffix_refl _
  · exact (List.tail_suffix _).trans (List.suffix_append us _)

/-- The current token is the first one. -/
theorem Ascending.place_le_start (h : s.Ascending) {x : Token} (hx : x ∈ s.toList) :
    s.place ≤ x.span.start.offset := by
  -- a stream begins with its current token, also at its end
  obtain ⟨rest, hrest⟩ : ∃ rest, s.toList = s.current :: rest := by
    rcases hp : s.pending with - | ⟨y, ys⟩
    · exact ⟨[], by simp [toList, current, hp]⟩
    · exact ⟨ys ++ [s.last], by simp [toList, current, hp]⟩
  rw [Ascending, hrest] at h
  rw [hrest] at hx
  rcases List.mem_cons.mp hx with rfl | hx
  · exact Nat.le_refl _
  · exact List.rel_of_pairwise_cons h hx

/-- What is further on begins further on. -/
theorem Ascending.place_le (h : s.Ascending) (hle : t ≤ s) : s.place ≤ t.place :=
  h.place_le_start (toList_subset hle t.current_mem_toList)

/-- At the end of a stream, moving on leads nowhere. -/
theorem advance_of_eof (h : s.current.kind = .eof) : s.advance = s := by
  refine TokenStream.ext ?_ rfl
  rw [pending_advance, kind_current_eq_eof_iff.mp h]
  rfl

end TokenStream

/-! ### Diagnostics in order -/

/-- The diagnostics lie in order, from byte `m` up to byte `n`. -/
structure InOrder (m : Nat) (ds : List Diagnostic) (n : Nat) : Prop where
  le : m ≤ n
  within : ∀ d ∈ ds, m ≤ d.position.offset ∧ d.position.offset ≤ n
  sorted : ds.Pairwise fun d e => d.position.offset ≤ e.position.offset

namespace InOrder

theorem nil (h : m ≤ n) : InOrder m [] n :=
  ⟨h, List.forall_mem_nil _, .nil⟩

theorem single (hm : m ≤ e.position.offset) (hn : e.position.offset ≤ n) : InOrder m [e] n :=
  ⟨Nat.le_trans hm hn, List.forall_mem_singleton.mpr ⟨hm, hn⟩, List.pairwise_singleton _ _⟩

theorem append (h : InOrder m ds n) (h' : InOrder n es k) : InOrder m (ds ++ es) k where
  le := Nat.le_trans h.le h'.le
  -- byte `n` lies between the two parts
  within := by
    refine List.forall_mem_append.mpr ⟨fun d hd => ?_, fun d hd => ?_⟩
    · exact ⟨(h.within d hd).1, Nat.le_trans (h.within d hd).2 h'.le⟩
    · exact ⟨Nat.le_trans h.le (h'.within d hd).1, (h'.within d hd).2⟩
  sorted := by
    refine List.pairwise_append.mpr ⟨h.sorted, h'.sorted, fun d hd e he => ?_⟩
    exact Nat.le_trans (h.within d hd).2 (h'.within e he).1

theorem from_le (h : InOrder n ds k) (hle : m ≤ n) : InOrder m ds k :=
  (nil hle).append h

theorem to_le (h : InOrder m ds n) (hle : n ≤ k) : InOrder m ds k :=
  List.append_nil ds ▸ h.append (nil hle)

end InOrder

namespace Parser

/-! ### Parsers that make progress -/

/-- All that is wrong in a run: what was found on the way, and then the
failure of the run itself. -/
def complaints (o : Outcome (Except Diagnostic α)) : List Diagnostic :=
  match o.value with
  | .error e => errorsOf o.events ++ [e]
  | .ok _ => errorsOf o.events

/-- What is wrong in a run of `p` on `s` lies in order, from byte `m` up to
the token behind the one on which the run stops. -/
def Progresses (m : Nat) (p : Parser α) (s : TokenStream) : Prop :=
  InOrder m (complaints (p.run s)) (p.run s).rest.advance.place

section Laws

variable {p : Parser α} {f : α → Parser β} {a : α}

theorem Progresses.from_le (h : Progresses n p s) (hle : m ≤ n) : Progresses m p s :=
  InOrder.from_le h hle

theorem Progresses.congr {q : Parser α} (h : Progresses m q s) (hrun : p.run s = q.run s) :
    Progresses m p s := by
  unfold Progresses
  rw [hrun]
  exact h

theorem progresses_pure (h : m ≤ s.advance.place) : Progresses m (pure a : Parser α) s :=
  .nil h

theorem progresses_fail (hm : m ≤ e.position.offset) (hs : e.position.offset ≤ s.advance.place) :
    Progresses m (fail e : Parser α) s :=
  .single hm hs

/-- One parser after another: the second one looks at no token in front of
the one behind which the first one stops. -/
theorem Progresses.chain (h : Progresses m p s)
    (h' : ∀ a, Progresses (p.run s).rest.advance.place (f a) (p.run s).rest) :
    Progresses m (p >>= f) s := by
  unfold Progresses at h h' ⊢
  rw [run_bind]
  rcases hrun : p.run s with ⟨e | a, t, events⟩
  · rw [hrun] at h
    exact h
  · rw [hrun] at h h'
    -- what the second parser complains about comes behind what the first one has found
    have hall : complaints (after ⟨.ok a, t, events⟩ f) =
        errorsOf events ++ complaints ((f a).run t) := by
      rw [after_ok, complaints, complaints]
      rcases ((f a).run t).value with e | b
      · simp
      · simp
    rw [hall]
    exact h.append (h' a)

theorem Progresses.bind (h : Progresses m p s) (hs : s.Ascending)
    (h' : ∀ a t, t.Ascending → Progresses t.advance.place (f a) t) :
    Progresses m (p >>= f) s :=
  h.chain fun a => h' a _ (hs.mono (p.rest_le s))

theorem progresses_current {f : Token → Parser β} (h : Progresses m (f s.current) s) :
    Progresses m (current >>= f) s := h

theorem progresses_peek {f : Token → Parser β} (h : Progresses m (f s.peek) s) :
    Progresses m (peek >>= f) s := h

theorem progresses_advance {f : Unit → Parser β} (h : Progresses m (f ()) s.advance) :
    Progresses m (advance >>= f) s := h

theorem progresses_announce {first : Token} {f : Unit → Parser β} (h : Progresses m (f ()) s) :
    Progresses m (announce first >>= f) s := h

/-- What is missing is blamed on the token that is there instead.  If it is
there, a parser behind it may still blame it. -/
theorem progresses_expect {kind : Kind} {f : Token → Parser β} (hm : m ≤ s.advance.place)
    (hf : Progresses m (f s.peek) s.advance) : Progresses m (expect kind >>= f) s := by
  by_cases hk : s.peek.kind = kind
  · refine (progresses_advance (f := fun _ => f s.peek) hf).congr ?_
    simp [expect, hk]
  · refine (progresses_fail (e := ⟨.unexpectedToken kind s.peek.kind, s.peek.span.start⟩) hm
      (Nat.le_refl _)).congr ?_
    simp [expect, hk]

theorem progresses_accept {kind : Kind} (hs : s.Ascending) (hm : m ≤ s.advance.place) :
    Progresses m (accept kind) s := by
  apply progresses_peek
  split
  · -- the token is passed, so the stream stands one place further on
    exact .nil (Nat.le_trans hm ((hs.mono s.advance_le).place_le s.advance.advance_le))
  · exact progresses_pure hm

/-- A loop, each turn of which begins on a new token. -/
theorem progresses_foldPeek {more : Kind → Bool} {stops : more .eof = false}
    {step : α → Parser α} (hstep : ∀ a t, t.Ascending → Progresses t.place (step a) t)
    (hs : s.Ascending) : Progresses s.advance.place (foldPeek more stops step a) s := by
  -- on the turns of the loop: each one begins where the last one had looked
  induction a, s using foldPeek_induction stops with
  | turn a s ih =>
    have hrun := run_foldPeek more stops step a s
    split at hrun
    · next hmore =>
      have hs' := hs.mono s.advance_le
      have hturn : Progresses s.advance.place (advance >>= fun _ => step a) s :=
        progresses_advance (hstep a s.advance hs')
      refine (hturn.chain fun b => ?_).congr hrun
      exact ih hmore b _ ((step a).rest_le _) (hs'.mono ((step a).rest_le _))
    · exact (progresses_pure (Nat.le_refl _)).congr hrun

end Laws

/-- What is read one level deeper is read in order. -/
structure Advancing (inner : Nested) : Prop where
  expression : ∀ p s, s.Ascending → Progresses s.place (inner.expression p) s
  block : ∀ s, s.Ascending → Progresses s.place inner.block s

variable {inner : Nested}

/-! ### Leading parts -/

/-- What ends where it stands. -/
theorem progresses_done {a : α} (hs : s.Ascending) : Progresses s.place (pure a : Parser α) s :=
  progresses_pure (hs.place_le s.advance_le)

theorem progresses_identifier (hs : s.Ascending) : Progresses s.place identifier s :=
  progresses_current (progresses_done hs)

theorem progresses_integer (hs : s.Ascending) : Progresses s.place integer s := by
  apply progresses_current
  split
  · exact progresses_done hs
  · exact progresses_fail (Nat.le_refl _) (hs.place_le s.advance_le)

theorem progresses_boolean (hs : s.Ascending) : Progresses s.place boolean s :=
  progresses_current (progresses_done hs)

/-- An expression behind the current token. -/
theorem progresses_operand (hi : Advancing inner) {p : Precedence} {f : ParsedExpr → Parser β}
    (hs : s.Ascending) (hm : m ≤ s.advance.place)
    (hf : ∀ e t, t.Ascending → Progresses t.advance.place (f e) t) :
    Progresses m (advance >>= fun _ => inner.expression p >>= f) s := by
  have hs' := hs.mono s.advance_le
  exact progresses_advance (((hi.expression p s.advance hs').from_le hm).bind hs' hf)

theorem progresses_unary (hi : Advancing inner) (hs : s.Ascending) :
    Progresses s.place (unary inner) s := by
  apply progresses_current
  apply progresses_operand hi hs (hs.place_le s.advance_le)
  intro operand t ht
  exact progresses_pure (Nat.le_refl _)

theorem progresses_group (hi : Advancing inner) (hs : s.Ascending) :
    Progresses s.place (group inner) s := by
  apply progresses_operand hi hs (hs.place_le s.advance_le)
  intro e t ht
  apply progresses_expect (Nat.le_refl _)
  exact progresses_done (ht.mono t.advance_le)

/-- A block behind its opening brace, which is the next token. -/
theorem progresses_braces (hi : Advancing inner) {f : ParsedBlock → Parser β} (hs : s.Ascending)
    (hm : m ≤ s.advance.place) (hf : ∀ b t, t.Ascending → Progresses t.advance.place (f b) t) :
    Progresses m (expect .openCurly >>= fun _ => inner.block >>= f) s := by
  have hs' := hs.mono s.advance_le
  exact progresses_expect hm (((hi.block s.advance hs').from_le hm).bind hs' hf)

theorem progresses_alternative (hi : Advancing inner) (hs : s.Ascending) :
    Progresses s.advance.place (alternative inner) s := by
  have hs' := hs.mono s.advance_le
  apply progresses_peek
  split
  · apply progresses_advance
    apply progresses_braces hi hs' (hs'.place_le s.advance.advance_le)
    intro body t ht
    exact progresses_pure (Nat.le_refl _)
  · exact progresses_pure (Nat.le_refl _)

theorem progresses_conditional (hi : Advancing inner) (hs : s.Ascending) :
    Progresses s.place (conditional inner) s := by
  have hs' := hs.mono s.advance_le
  have hle := hs.place_le s.advance_le
  apply progresses_current
  apply progresses_expect hle
  apply progresses_operand hi hs' (Nat.le_trans hle (hs'.place_le s.advance.advance_le))
  intro condition t ht
  have ht' := ht.mono t.advance_le
  apply progresses_expect (Nat.le_refl _)
  apply progresses_braces hi ht' (ht'.place_le t.advance.advance_le)
  intro consequence u hu
  -- the second branch begins behind the token on which the first one ends
  apply (progresses_alternative hi hu).bind hu
  intro otherwise v hv
  exact progresses_current (progresses_pure (Nat.le_refl _))

/-! ### Lists -/

section Lists

variable {item : Parser α}

theorem progresses_separated
    (hitem : ∀ t, t.Ascending → Progresses t.advance.place item t) (hs : s.Ascending) :
    Progresses s.advance.place (separated .comma (by decide) item) s := by
  apply (hitem s hs).bind hs
  intro first t ht
  refine Progresses.bind (progresses_foldPeek ?_ ht) ht ?_
  · intro before u hu
    -- an item begins behind its comma
    refine Progresses.from_le ?_ (hu.place_le u.advance_le)
    apply (hitem u hu).bind hu
    intro a v hv
    exact progresses_pure (Nat.le_refl _)
  · intro items u hu
    exact progresses_pure (Nat.le_refl _)

theorem progresses_listed (hitem : ∀ t, t.Ascending → Progresses t.advance.place item t)
    (hs : s.Ascending) : Progresses s.advance.place (listed item) s := by
  apply progresses_peek
  split
  · exact progresses_advance (progresses_done (hs.mono s.advance_le))
  · apply (progresses_separated hitem hs).bind hs
    intro items t ht
    apply progresses_expect (Nat.le_refl _)
    exact progresses_done (ht.mono t.advance_le)

end Lists

theorem progresses_parameter (t : TokenStream) (ht : t.Ascending) :
    Progresses t.advance.place parameter t :=
  progresses_expect (Nat.le_refl _) (progresses_done (ht.mono t.advance_le))

theorem progresses_function (hi : Advancing inner) (hs : s.Ascending) :
    Progresses s.place (function inner) s := by
  have hs' := hs.mono s.advance_le
  have hle := hs.place_le s.advance_le
  apply progresses_current
  apply progresses_expect hle
  -- the names stand behind the parenthesis, and the body behind the names
  have hnames := progresses_listed progresses_parameter hs'
  apply (hnames.from_le (Nat.le_trans hle (hs'.place_le s.advance.advance_le))).bind hs'
  intro names t ht
  apply progresses_braces hi ht (Nat.le_refl _)
  intro body u hu
  exact progresses_current (progresses_pure (Nat.le_refl _))

theorem progresses_lead (hi : Advancing inner) (hs : s.Ascending) :
    Progresses s.place (lead inner) s := by
  apply progresses_current
  split
  · next form _ =>
    cases form with
    | identifier => exact progresses_identifier hs
    | integer => exact progresses_integer hs
    | boolean => exact progresses_boolean hs
    | unary => exact progresses_unary hi hs
    | group => exact progresses_group hi hs
    | conditional => exact progresses_conditional hi hs
    | function => exact progresses_function hi hs
  · exact progresses_fail (Nat.le_refl _) (hs.place_le s.advance_le)

/-! ### Links -/

theorem progresses_binary (hi : Advancing inner) {p : Precedence} {left : ParsedExpr}
    (hs : s.Ascending) : Progresses s.place (binary inner p left) s := by
  apply progresses_current
  apply progresses_operand hi hs (hs.place_le s.advance_le)
  intro right t ht
  exact progresses_pure (Nat.le_refl _)

theorem progresses_argument (hi : Advancing inner) (t : TokenStream) (ht : t.Ascending) :
    Progresses t.advance.place (argument inner) t :=
  progresses_advance (hi.expression _ t.advance (ht.mono t.advance_le))

theorem progresses_call (hi : Advancing inner) {callee : ParsedExpr} (hs : s.Ascending) :
    Progresses s.place (call inner callee) s := by
  apply progresses_current
  have harguments := progresses_listed (progresses_argument hi) hs
  apply (harguments.from_le (hs.place_le s.advance_le)).bind hs
  intro arguments t ht
  exact progresses_current (progresses_pure (Nat.le_refl _))

theorem progresses_link (hi : Advancing inner) (left : ParsedExpr) (t : TokenStream)
    (ht : t.Ascending) : Progresses t.place (link inner left) t := by
  apply progresses_current
  split
  · next form _ =>
    cases form with
    | binary => exact progresses_binary hi ht
    | call => exact progresses_call hi ht
  · exact progresses_done ht

theorem progresses_expression (hi : Advancing inner) (p : Precedence) (s : TokenStream)
    (hs : s.Ascending) : Progresses s.place (expression inner p) s := by
  apply (progresses_lead hi hs).bind hs
  intro left t ht
  exact progresses_foldPeek (progresses_link hi) ht

/-! ### Statements -/

/-- How a statement ends that ends with an expression. -/
theorem progresses_ending {f : Token → α} (hs : s.Ascending) :
    Progresses s.advance.place
      (accept .semicolon >>= fun _ => current >>= fun last => pure (f last)) s := by
  apply (progresses_accept hs (Nat.le_refl _)).bind hs
  intro _ t ht
  exact progresses_current (progresses_pure (Nat.le_refl _))

theorem progresses_binding (hi : Advancing inner) (hs : s.Ascending) :
    Progresses s.place (binding inner) s := by
  have hs₁ := hs.mono s.advance_le
  have hs₂ := hs₁.mono s.advance.advance_le
  have hle₁ := hs.place_le s.advance_le
  have hle₂ := Nat.le_trans hle₁ (hs₁.place_le s.advance.advance_le)
  apply progresses_current
  apply progresses_expect hle₁
  apply progresses_expect hle₂
  -- the keyword, the name and the equals sign have been looked at when the value begins
  have hle₃ := Nat.le_trans hle₂ (hs₂.place_le s.advance.advance.advance_le)
  apply progresses_operand hi hs₂ hle₃
  intro value t ht
  exact progresses_ending ht

theorem progresses_returning (hi : Advancing inner) (hs : s.Ascending) :
    Progresses s.place (returning inner) s := by
  apply progresses_current
  apply progresses_operand hi hs (hs.place_le s.advance_le)
  intro value t ht
  exact progresses_ending ht

theorem progresses_expressionStatement (hi : Advancing inner) (hs : s.Ascending) :
    Progresses s.place (expressionStatement inner) s := by
  apply progresses_current
  apply (hi.expression .lowest s hs).bind hs
  intro value t ht
  exact progresses_ending ht

theorem progresses_formed (hi : Advancing inner) (form : StatementForm) (hs : s.Ascending) :
    Progresses s.place (formed inner form) s := by
  cases form with
  | binding => exact progresses_binding hi hs
  | returning => exact progresses_returning hi hs
  | block =>
    apply (hi.block s hs).bind hs
    intro body t ht
    exact progresses_pure (Nat.le_refl _)

theorem progresses_statement (hi : Advancing inner) (hs : s.Ascending) :
    Progresses s.place (statement inner) s := by
  refine progresses_current (progresses_announce ?_)
  split
  · exact progresses_done hs
  · split
    · next form _ =>
      apply (progresses_formed hi form hs).bind hs
      intro stmt t ht
      exact progresses_pure (Nat.le_refl _)
    · apply (progresses_expressionStatement hi hs).bind hs
      intro stmt t ht
      exact progresses_pure (Nat.le_refl _)

/-! ### Sequences and blocks -/

/-- A sequence of statements is over where one can end. -/
theorem endsSequence_runStatements (inner : Nested) (inBlock : Bool) (s : TokenStream) :
    endsSequence inBlock (runStatements inner inBlock s).rest.current.kind := by
  fun_induction runStatements inner inBlock s with
  | case1 s hends => exact hends
  | case2 s hends o found hfound later ih => exact ih
  | case3 s hends o e he skipped events hskip =>
    -- only within a block does skipping find a brace that ends the sequence
    cases inBlock with
    | false => exact absurd hskip (by rw [value_skipStatement_outside]; decide)
    | true =>
      rw [current_of_value_skipStatement hskip]
      rfl
  | case4 s hends o e he skipped events hskip later ih => exact ih

/-- Behind a failure, reading goes on no further back than before the token
that has been blamed. -/
theorem inOrder_skipped {e : Diagnostic} (hi : Advancing inner) (hs : s.Ascending)
    (he : ((statement inner).run s).value = .error e) (inBlock : Bool) :
    let o := (statement inner).run s
    let skipped := skipStatement inBlock 0 o.rest
    InOrder s.place (errorsOf o.events ++ [e]) skipped.rest.advance.place := by
  intro o skipped
  have hstatement : InOrder _ (complaints o) o.rest.advance.place := progresses_statement hi hs
  rw [complaints, he] at hstatement
  -- skipping leads on from where the statement stopped
  have hrest := (hs.mono ((statement inner).rest_le s)).mono o.rest.advance_le
  apply hstatement.to_le
  exact hrest.place_le (TokenStream.advance_le_advance (rest_skipStatement_le inBlock 0 o.rest))

theorem inOrder_runStatements (hi : Advancing inner) (inBlock : Bool) (hs : s.Ascending) :
    InOrder s.place (errorsOf (runStatements inner inBlock s).events)
      (runStatements inner inBlock s).rest.advance.place := by
  fun_induction runStatements inner inBlock s with
  -- on the statements of the sequence: each one is read behind the errors before it
  | case1 s hends => exact .nil (hs.place_le s.advance_le)
  | case2 s hends o found hfound later ih =>
    have hstatement : InOrder _ (complaints o) o.rest.advance.place := progresses_statement hi hs
    rw [complaints, hfound] at hstatement
    have hrest := (hs.mono ((statement inner).rest_le s)).mono o.rest.advance_le
    rw [errorsOf_append, errorsOf_sight]
    exact hstatement.append (ih hrest)
  | case3 s hends o e he skipped events hskip =>
    rw [errorsOf_append, errorsOf_failure, errorsOf_skipStatement]
    exact inOrder_skipped hi hs he inBlock
  -- a failure, behind which the sequence goes on
  | case4 s hends o e he skipped events hskip later ih =>
    have hle := TokenStream.le_trans (rest_skipStatement_le inBlock 0 o.rest)
      ((statement inner).rest_le s)
    have hrest := (hs.mono hle).mono skipped.rest.advance_le
    rw [errorsOf_append, errorsOf_sight, errorsOf_append, errorsOf_failure,
      errorsOf_skipStatement]
    exact (inOrder_skipped hi hs he inBlock).append (ih hrest)

/-- A block that is not closed is blamed on the end of the source, and nothing
lies behind that. -/
theorem progresses_block (hi : Advancing inner) (s : TokenStream) (hs : s.Ascending) :
    Progresses s.place (block inner) s := by
  have hle := hs.place_le s.advance_le
  have hbody := (inOrder_runStatements hi true (hs.mono s.advance_le)).from_le hle
  have hends := endsSequence_runStatements inner true s.advance
  unfold Progresses
  rw [run_block]
  -- the failure of the block itself comes last, behind those of its statements
  by_cases hclose : (runStatements inner true s.advance).rest.current.kind = .closeCurly
  · simp only [complaints, hclose, if_true, errorsOf_sight]
    exact hbody
  · have heof : (runStatements inner true s.advance).rest.current.kind = .eof := by
      simpa [endsSequence, hclose] using hends
    simp only [complaints, hclose, if_false, errorsOf_sight]
    -- moving on from the end leads nowhere, so the end is the place of both
    rw [TokenStream.advance_of_eof heof] at hbody ⊢
    exact hbody.append (.single (Nat.le_refl _) (Nat.le_refl _))

/-! ### Levels -/

theorem progresses_tooDeep (hs : s.Ascending) :
    Progresses s.place (Nested.tooDeep : Parser α) s :=
  progresses_current (progresses_fail (Nat.le_refl _) (hs.place_le s.advance_le))

theorem advancing_within (n : Nat) : Advancing (.within n) := by
  induction n with
  -- the limit is blamed on the token at hand
  | zero => exact ⟨fun _ _ hs => progresses_tooDeep hs, fun _ hs => progresses_tooDeep hs⟩
  | succ n ih => exact ⟨progresses_expression ih, progresses_block ih⟩

end Parser

/-! ### Sources -/

/-- The tokens of a source stand in order, and so does its end: it is recorded
where it is, or else as the greatest offset there is. -/
theorem ascending_ofSource (file source : String) :
    (TokenStream.ofSource file source).Ascending := by
  obtain ⟨stop, -, hlast, htiled⟩ := tiled_stream file 0 source.toList
  replace htiled := htiled [] rfl
  have hfinish {t : Token} (ht : t ∈ (TokenStream.ofSource file source).pending) :
      t.span.start.offset < t.finish :=
    t.start_lt_finish (text_ne_empty_ofSource file source t ht)
  refine List.pairwise_append.mpr ⟨?_, List.pairwise_singleton _ _, fun t ht u hu => ?_⟩
  · refine htiled.pairwise.imp_of_mem fun ht _ hle => ?_
    exact Nat.le_trans (Nat.le_of_lt (hfinish ht)) hle
  · -- the end: no token begins behind it, recorded or not
    obtain ⟨-, -, hstands⟩ := htiled.standsIn t ht
    rw [List.mem_singleton.mp hu, show (TokenStream.ofSource file source).last = _ from hlast]
    have hstop := Nat.le_trans (Nat.le_of_lt (hfinish ht)) (htiled.finish_le.2 t ht)
    exact Nat.le_min.mpr ⟨hstop, hstands.start_le⟩

/-- **Diagnostics come in source order**: along the errors of a source, the
offsets never decrease. -/
theorem pairwise_errors_parseSource (file source : String) :
    (parseSource file source).errors.Pairwise fun d e =>
      d.position.offset ≤ e.position.offset :=
  (Parser.inOrder_runStatements (Parser.advancing_within maxNesting) false
    (ascending_ofSource file source)).sorted

/-- Two statements of a block cannot be read, and then the call around the block cannot. -/
example :
    (parseSource "shell" "f(fn() { let 1; 2 3 + } 4)").errors.map (·.position.offset) =
      [13, 22, 24] := by
  decide +kernel

end LetFn
