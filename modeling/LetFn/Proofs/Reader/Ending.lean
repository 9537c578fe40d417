/-
LetFn/Proofs/Reader/Ending.lean

Reading always ends.

`Routine.course` says what readers do without saying why it should come to an
end.  `Ends d X A` says that the course `X` of a reader at depth `d` does, to
the same end as the action `A`, and that the depth is `d` again.  There is a
law for each way to put courses together, and a lemma for each routine.

There are three reasons for what ends.  A loop moves on by a token in each
turn, and the end of the source is no token that it goes on with; a turn that
does not move on is the last one, because skipping has ended on the brace that
ends the loop (`kind_of_synchronize`).  Recursion between handlers takes a
level each time, and the counter lets nothing descend from the last one
(`ends_levels`).  All else is one step after another.

Main statement: `course_ends`.
-/
import LetFn.Proofs.Reader.Levels
import LetFn.Reader.Course

namespace LetFn

namespace Reader

open Routine (course run_body_of_closing)

variable {α β : Type}
variable {r : Reader}

/-! ### Courses that end -/

/-- At depth `d`, the course ends as the action does, and leaves the depth as it was. -/
def Ends (d : Nat) (X : Trial α) (A : Action α) : Prop :=
  ∀ r : Reader, r.depth = d → X.run.run r = some (A.run r) ∧ (A.run r).2.depth = d

/-- The action leaves the depth as it is. -/
def Action.Keeps (A : Action α) : Prop := ∀ r : Reader, (A.run r).2.depth = r.depth

section Laws

variable {d : Nat}
variable {X : Trial α} {Y : α → Trial β} {A B : Action α} {f : α → Action β}

theorem run_bind_of_ok {a : α} {r' : Reader} (h : X.run.run r = some (.ok a, r')) :
    (X >>= Y).run.run r = (Y a).run.run r' := by
  show Option.bind (X.run.run r) _ = _
  rw [h]
  rfl

theorem run_bind_of_error {e : Diagnostic} {r' : Reader} (h : X.run.run r = some (.error e, r')) :
    (X >>= Y).run.run r = some (.error e, r') := by
  show Option.bind (X.run.run r) _ = _
  rw [h]
  rfl

/-- An attempt does not fail, and what comes behind it sees what has come of it. -/
theorem run_attempt_bind {Y : Except Diagnostic α → Trial β} {o : Except Diagnostic α × Reader}
    (h : X.run.run r = some o) : (X.attempt >>= Y).run.run r = (Y o.1).run.run o.2 := by
  refine run_bind_of_ok ?_
  show Option.bind (X.run.run r) _ = _
  rw [h]
  rfl

theorem run_get (r : Reader) : (get : Trial Reader).run.run r = some (.ok r, r) := rfl

/-- What comes behind a course that ends as an action does. -/
theorem ends_after {o : Except Diagnostic α × Reader} (h : X.run.run r = some o)
    (hd : o.2.depth = d) (hf : ∀ a, o.1 = .ok a → (Y a).run.run o.2 = some ((f a).run o.2) ∧
      ((f a).run o.2).2.depth = d) :
    (X >>= Y).run.run r = some (Action.after o f) ∧ (Action.after o f).2.depth = d := by
  rcases o with ⟨e | a, r'⟩
  · exact ⟨run_bind_of_error h, hd⟩
  · rw [run_bind_of_ok h]
    exact hf a rfl

theorem ends_lift (h : A.Keeps) : Ends d (liftM A) A :=
  fun r hd => ⟨rfl, (h r).trans hd⟩

theorem ends_pure (a : α) : Ends d (pure a) (pure a) :=
  fun _ hd => ⟨rfl, hd⟩

theorem Ends.bind (h : Ends d X A) (hf : ∀ a, Ends d (Y a) (f a)) :
    Ends d (X >>= Y) (A >>= f) := by
  intro r hd
  obtain ⟨hrun, hdepth⟩ := h r hd
  exact ends_after hrun hdepth fun a _ => hf a _ hdepth

/-- An end is an end, whatever is made of the value. -/
theorem Ends.of_bind_pure (h : Ends d X (A >>= pure)) : Ends d X A := by
  intro r hd
  have hrun : (A >>= pure).run r = A.run r := by
    show Action.after (A.run r) pure = _
    rcases A.run r with ⟨e | a, r'⟩
    · rfl
    · rfl
  rw [← hrun]
  exact h r hd

theorem Ends.ite {c : Prop} [Decidable c] {Z : Trial α} (h : c → Ends d X A)
    (h' : ¬ c → Ends d Z B) : Ends d (if c then X else Z) (if c then A else B) := by
  split
  · next hc => exact h hc
  · next hc => exact h' hc

/-! ### Single steps -/

namespace Action

theorem keeps_pure (a : α) : Keeps (pure a) := fun _ => rfl

theorem keeps_fail (e : Diagnostic) : Keeps (fail e : Action α) := fun _ => rfl

theorem keeps_current : Keeps current := fun _ => rfl

theorem keeps_peek : Keeps peek := fun _ => rfl

theorem keeps_advance : Keeps advance := fun _ => rfl

theorem Keeps.bind (h : A.Keeps) (hf : ∀ a, (f a).Keeps) : (A >>= f).Keeps := by
  intro r
  have hdepth := h r
  show (after (A.run r) f).2.depth = r.depth
  rcases hrun : A.run r with ⟨e | a, r'⟩
  · rw [hrun] at hdepth
    exact hdepth
  · rw [hrun] at hdepth
    exact (hf a r').trans hdepth

theorem Keeps.ite {c : Prop} [Decidable c] (h : A.Keeps) (h' : B.Keeps) :
    Keeps (if c then A else B) := by
  split
  · exact h
  · exact h'

theorem keeps_expect (k : Kind) : Keeps (expect k) :=
  keeps_peek.bind fun _ => .ite (keeps_advance.bind fun _ => keeps_current) (keeps_fail _)

theorem keeps_accept (k : Kind) : Keeps (accept k) :=
  keeps_peek.bind fun _ => .ite keeps_advance (keeps_pure _)

theorem keeps_identifier : Keeps identifier := fun _ => rfl

theorem keeps_integer : Keeps integer := by
  refine keeps_current.bind fun token => ?_
  rcases Text.integer? token.text with - | value
  · exact keeps_fail _
  · exact keeps_pure _

theorem keeps_boolean : Keeps boolean := fun _ => rfl

theorem keeps_parameter : Keeps parameter :=
  (keeps_expect .identifier).bind fun _ => keeps_pure _

end Action

open LetFn.Reader.Action

theorem ends_current : Ends d (liftM current) current := ends_lift keeps_current

/-- What depends on the current token comes behind it, however it is put together. -/
theorem ends_current_bind {Z : Token → Trial β} {g : Token → Action α}
    (h : ∀ token, Ends d (Z token) (g token >>= f)) :
    Ends d (liftM current >>= Z) (current >>= g >>= f) :=
  fun r hd => h r.window.current r hd

theorem ends_peek : Ends d (liftM peek) peek := ends_lift keeps_peek

theorem ends_advance : Ends d (liftM Action.advance) Action.advance := ends_lift keeps_advance

theorem ends_expect (k : Kind) : Ends d (liftM (expect k)) (expect k) :=
  ends_lift (keeps_expect k)

theorem ends_accept (k : Kind) : Ends d (liftM (accept k)) (accept k) :=
  ends_lift (keeps_accept k)

/-! ### Loops that look at the next token -/

/-- A course that goes round as a loop does, and is done with its value where
the loop stops. -/
theorem ends_foldPeek {more : Kind → Bool} {stops : more .eof = false} {step : α → Action α}
    {X : α → Trial β} {Y : α → Trial α} {g : α → Action β}
    (hX : ∀ a r, (X a).run.run r = if more r.window.peek.kind then (Y a >>= X).run.run r.advance
      else some ((g a).run r))
    (hY : ∀ a, Ends d (Y a) (step a)) (hg : ∀ a, (g a).Keeps) (a : α) :
    Ends d (X a) (foldPeek more stops step a >>= g) := by
  intro r hd
  show _ = some (after (runFold more stops step a r) g) ∧
    (after (runFold more stops step a r) g).2.depth = d
  -- on the turns of the loop, which the window of the reader bounds
  fun_induction runFold more stops step a r with
  | case1 a r hmore o e he =>
    -- a turn that fails ends the loop
    obtain ⟨hrun, hdepth⟩ := hY a r.advance hd
    have ho : (step a).run r.advance = (.error e, o.2) := Prod.ext he rfl
    rw [hX, if_pos hmore, run_bind_of_error (hrun.trans (congrArg some ho))]
    exact ⟨rfl, hdepth⟩
  | case2 a r hmore o b hb ih =>
    obtain ⟨hrun, hdepth⟩ := hY a r.advance hd
    have ho : (step a).run r.advance = (.ok b, o.2) := Prod.ext hb rfl
    rw [hX, if_pos hmore, run_bind_of_ok (hrun.trans (congrArg some ho))]
    exact ih hdepth
  | case3 a r hmore =>
    -- no more turns
    rw [hX, if_neg hmore]
    exact ⟨rfl, (hg a r).trans hd⟩

end Laws

/-- What is read within others comes to an end at depth `d`. -/
structure Inner.EndsAt (d : Nat) (inner : Inner) : Prop where
  expression : ∀ p, Ends d (course (.expression p)) (inner.expression p)
  block : Ends d (course .block) inner.block

section Handlers

open LetFn.Reader.Action

variable {d : Nat}
variable {inner : Inner}

/-! ### Leading parts -/

theorem ends_unary (hi : inner.EndsAt d) : Ends d (course .unary) (unary inner) := by
  rw [course]
  exact ends_current.bind fun _ => ends_advance.bind fun _ =>
    (hi.expression .unary).bind fun _ => ends_pure _

theorem ends_group (hi : inner.EndsAt d) : Ends d (course .group) (group inner) := by
  rw [course]
  exact ends_advance.bind fun _ => (hi.expression .lowest).bind fun _ =>
    (ends_expect .closeParen).bind fun _ => ends_pure _

theorem ends_alternative (hi : inner.EndsAt d) :
    Ends d (course .alternative) (alternative inner) := by
  rw [course]
  refine ends_peek.bind fun next => .ite (fun _ => ?_) fun _ => ends_pure _
  exact ends_advance.bind fun _ => (ends_expect .openCurly).bind fun _ =>
    hi.block.bind fun _ => ends_pure _

theorem ends_conditional (hi : inner.EndsAt d) :
    Ends d (course .conditional) (conditional inner) := by
  rw [course]
  exact ends_current.bind fun _ => (ends_expect .openParen).bind fun _ =>
    ends_advance.bind fun _ => (hi.expression .lowest).bind fun _ =>
    (ends_expect .closeParen).bind fun _ => (ends_expect .openCurly).bind fun _ =>
    hi.block.bind fun _ => (ends_alternative hi).bind fun _ =>
    ends_current.bind fun _ => ends_pure _

/-- The loop over parameters reads a name before it looks for a comma. -/
theorem ends_moreParameters (before : List (Name Origin)) :
    Ends d (course (.moreParameters before)) (do
      let name ← parameter
      let names ← foldPeek (· = .comma) (by decide)
        (fun before => do return (← parameter) :: before) (name :: before)
      return names.reverse) := by
  rw [course]
  refine (ends_lift keeps_parameter).bind fun name => ?_
  -- behind a name, the course either ends or goes on as it began
  refine ends_foldPeek
    (X := fun names => do
      let next ← liftM peek
      if next.kind = .comma then
        liftM Action.advance
        course (.moreParameters names)
      else return names.reverse)
    (Y := fun names => do return (← liftM parameter) :: names) (fun names r => ?_)
    (fun names => (ends_lift keeps_parameter).bind fun _ => ends_pure _) (fun _ => keeps_pure _) _
  show ((if r.window.peek.kind = .comma then _ else _ : Trial _)).run.run r = _
  by_cases hk : r.window.peek.kind = .comma
  · rw [if_pos hk, if_pos (by simpa using hk), bind_assoc]
    simp only [pure_bind]
    -- the comma has been passed, and the course is unfolded once more to match the turn
    show (course (.moreParameters names)).run.run r.advance = _
    rw [course]
  · rw [if_neg hk, if_neg (by simpa using hk)]
    rfl

theorem ends_parameters : Ends d (course .parameters) (listed parameter) := by
  rw [course]
  refine ends_peek.bind fun next => .ite (fun _ => ?_) fun _ => ?_
  · exact ends_advance.bind fun _ => ends_pure _
  · exact (ends_moreParameters []).bind fun _ => (ends_expect .closeParen).bind fun _ =>
      ends_pure _

theorem ends_function (hi : inner.EndsAt d) : Ends d (course .function) (function inner) := by
  rw [course]
  exact ends_current.bind fun _ => (ends_expect .openParen).bind fun _ =>
    ends_parameters.bind fun _ => (ends_expect .openCurly).bind fun _ =>
    hi.block.bind fun _ => ends_current.bind fun _ => ends_pure _

theorem ends_leading (hi : inner.EndsAt d) (form : Lead) :
    Ends d (course (.leading form)) (leading inner form) := by
  cases form with
  | identifier => rw [course]; exact ends_lift keeps_identifier
  | integer => rw [course]; exact ends_lift keeps_integer
  | boolean => rw [course]; exact ends_lift keeps_boolean
  | unary => rw [course]; exact ends_unary hi
  | group => rw [course]; exact ends_group hi
  | conditional => rw [course]; exact ends_conditional hi
  | function => rw [course]; exact ends_function hi

/-! ### Links -/

theorem ends_binary (hi : inner.EndsAt d) (p : Precedence) (left : ParsedExpr) :
    Ends d (course (.binary p left)) (binary inner p left) := by
  rw [course]
  exact ends_current.bind fun _ => ends_advance.bind fun _ =>
    (hi.expression p).bind fun _ => ends_pure _

theorem ends_argument (hi : inner.EndsAt d) :
    Ends d (do Action.advance; course (.expression .lowest)) (argument inner) :=
  ends_advance.bind fun _ => hi.expression .lowest

/-- The loop over arguments looks for a comma before it reads the next one. -/
theorem ends_moreArguments (hi : inner.EndsAt d) (before : List ParsedExpr) :
    Ends d (course (.moreArguments before)) (do
      let es ← foldPeek (· = .comma) (by decide)
        (fun before => do return (← argument inner) :: before) before
      return es.reverse) := by
  -- here a turn ends with the argument, so the course begins where the loop does
  refine ends_foldPeek (X := fun before => course (.moreArguments before))
    (Y := fun before => do
      return (← (do Action.advance; course (.expression .lowest))) :: before)
    (fun before r => ?_) (fun _ => (ends_argument hi).bind fun _ => ends_pure _)
    (fun _ => keeps_pure _) before
  conv => lhs; rw [course]
  show ((if r.window.peek.kind = .comma then _ else _ : Trial _)).run.run r = _
  by_cases hk : r.window.peek.kind = .comma
  · rw [if_pos hk, if_pos (by simpa using hk)]
    simp only [bind_assoc, pure_bind]
    rfl
  · rw [if_neg hk, if_neg (by simpa using hk)]
    rfl

theorem ends_arguments (hi : inner.EndsAt d) :
    Ends d (course .arguments) (listed (argument inner)) := by
  rw [course]
  refine ends_peek.bind fun next => .ite (fun _ => ?_) fun _ => ?_
  · exact ends_advance.bind fun _ => ends_pure _
  · -- an argument, and the loop over the others
    have hlist : Ends d (do
        Action.advance
        let first ← course (.expression .lowest)
        course (.moreArguments [first])) (separated .comma (by decide) (argument inner)) := by
      have key := (ends_argument hi).bind fun first => ends_moreArguments hi [first]
      simp only [bind_assoc] at key
      exact key
    have key := hlist.bind fun es => (ends_expect .closeParen).bind fun _ => ends_pure es
    simp only [bind_assoc] at key
    exact key

theorem ends_call (hi : inner.EndsAt d) (callee : ParsedExpr) :
    Ends d (course (.call callee)) (call inner callee) := by
  rw [course]
  exact ends_current.bind fun _ => (ends_arguments hi).bind fun _ =>
    ends_current.bind fun _ => ends_pure _

theorem ends_linked (hi : inner.EndsAt d) (p : Precedence) (left : ParsedExpr) (form : Link) :
    Ends d (course (.linked form p left)) (linked inner p left form) := by
  cases form with
  | binary => rw [course]; exact ends_binary hi p left
  | call => rw [course]; exact ends_call hi left

/-- The course of a link from its first token on. -/
theorem ends_link (hi : inner.EndsAt d) (left : ParsedExpr) :
    Ends d (do
      let token ← current
      match token.kind.link? with
      | some form => course (.linked form token.kind.precedence left)
      | none => return left) (link inner left) := by
  refine ends_current.bind fun token => ?_
  rcases token.kind.link? with - | form
  · exact ends_pure left
  · exact ends_linked hi _ left form

/-- The end of a source binds nothing. -/
theorem links_stop (p : Precedence) :
    (decide (Kind.eof ≠ .semicolon) && decide (p < Kind.eof.precedence)) = false := by
  show (_ && decide (p < .lowest)) = false
  rw [decide_eq_false (Precedence.not_lt_lowest p), Bool.and_false]

/-- The loop over links moves on only if there is a link to read: what binds
at all is one. -/
theorem ends_links (hi : inner.EndsAt d) (p : Precedence) (left : ParsedExpr) :
    Ends d (course (.links p left))
      (foldPeek (fun kind => kind ≠ .semicolon && p < kind.precedence) (links_stop p)
        (link inner) left) := by
  refine .of_bind_pure (ends_foldPeek (X := fun left => course (.links p left))
    (fun left r => ?_) (ends_link hi) keeps_pure left)
  rw [course]
  show ((if _ then _ else _ : Trial _)).run.run r = _
  split
  · next hmore =>
    -- the semicolon aside, what goes on binds tighter than asked for
    have hlt : p < r.window.peek.kind.precedence := by
      rw [Bool.and_eq_true, decide_eq_true_iff, decide_eq_true_iff] at hmore
      exact hmore.2
    obtain ⟨form, hform⟩ := Option.isSome_iff_exists.mp
      ((Kind.isSome_link?_iff _).mpr (Nat.zero_lt_of_lt hlt))
    -- so it makes a link, and the loop does not stop without moving on
    rw [hform]
    show (course (.linked form r.window.peek.kind.precedence left) >>= _).run.run r.advance =
      ((match r.window.peek.kind.link? with
        | some form => course (.linked form r.window.peek.kind.precedence left)
        | none => pure left) >>= fun e => course (.links p e)).run.run r.advance
    rw [hform]
  · rfl

/-! ### Expressions -/

theorem ends_climb (hi : inner.EndsAt d) (p : Precedence) :
    Ends d (course (.climb p)) (climb inner p) := by
  rw [course]
  refine ends_current_bind fun token => ?_
  rcases token.kind.lead? with - | form
  · exact fun _ hd => ⟨rfl, hd⟩
  · exact (ends_leading hi form).bind fun left => ends_links hi p left

/-! ### Single statements -/

theorem ends_binding (hi : inner.EndsAt d) : Ends d (course .binding) (binding inner) := by
  rw [course]
  exact ends_current.bind fun _ => (ends_expect .identifier).bind fun _ =>
    (ends_expect .assignment).bind fun _ => ends_advance.bind fun _ =>
    (hi.expression .lowest).bind fun _ => (ends_accept .semicolon).bind fun _ =>
    ends_current.bind fun _ => ends_pure _

theorem ends_returning (hi : inner.EndsAt d) : Ends d (course .returning) (returning inner) := by
  rw [course]
  exact ends_current.bind fun _ => ends_advance.bind fun _ =>
    (hi.expression .lowest).bind fun _ => (ends_accept .semicolon).bind fun _ =>
    ends_current.bind fun _ => ends_pure _

theorem ends_expressionStatement (hi : inner.EndsAt d) :
    Ends d (course .expressionStatement) (expressionStatement inner) := by
  rw [course]
  exact ends_current.bind fun _ => (hi.expression .lowest).bind fun _ =>
    (ends_accept .semicolon).bind fun _ => ends_current.bind fun _ => ends_pure _

theorem ends_formed (hi : inner.EndsAt d) (form : StatementForm) :
    Ends d (course (.formed form)) (formed inner form) := by
  cases form with
  | binding => rw [course]; exact ends_binding hi
  | returning => rw [course]; exact ends_returning hi
  | block => rw [course]; exact hi.block.bind fun _ => ends_pure _

theorem ends_statement (hi : inner.EndsAt d) :
    Ends d (course .statement) (statement inner) := by
  rw [course]
  refine ends_current.bind fun first => .ite (fun _ => ends_pure none) fun _ => ?_
  rcases first.kind.statementForm? with - | form
  · exact (ends_expressionStatement hi).bind fun _ => ends_pure _
  · exact (ends_formed hi form).bind fun _ => ends_pure _

end Handlers

/-! ### Recovery -/

/-- Skipping moves on until it ends, and ends at the end of the source at the latest. -/
theorem run_synchronize (openBraces : Nat) (r : Reader) :
    (course (.synchronize openBraces)).run.run r =
      some (.ok (r.synchronize openBraces).1, (r.synchronize openBraces).2) := by
  fun_induction synchronize openBraces r with
  -- it ends on the current token, before the next one, or further on
  | case1 openBraces r closed h =>
    rw [course, run_bind_of_ok (run_get r), h]
    rfl
  | case2 openBraces r later h next hnext =>
    rw [course, run_bind_of_ok (run_get r), h]
    show (if _ then _ else _ : Trial _).run.run r = _
    rw [if_pos hnext]
    rfl
  | case3 openBraces r later h next hnext ih =>
    rw [course, run_bind_of_ok (run_get r), h]
    show (if _ then _ else _ : Trial _).run.run r = _
    rw [if_neg hnext]
    exact ih

theorem depth_synchronize (openBraces : Nat) (r : Reader) :
    (r.synchronize openBraces).2.depth = r.depth := by
  fun_induction synchronize openBraces r with
  | case1 openBraces r closed h => rfl
  | case2 openBraces r later h next hnext => rfl
  | case3 openBraces r later h next hnext ih => exact ih

/-- Skipping says that it has ended on a closing brace only where one is current. -/
theorem kind_of_synchronize (openBraces : Nat) (r : Reader) :
    (r.synchronize openBraces).1 = true →
      (r.synchronize openBraces).2.window.current.kind = .closeCurly := by
  fun_induction synchronize openBraces r with
  | case1 openBraces r closed h =>
    -- it says so only on a token on which it stops, by the kind of that token
    rintro rfl
    obtain ⟨-, hkind⟩ := skipped_eq_inl_iff.mp h
    exact of_decide_eq_true hkind.symm
  | case2 openBraces r later h next hnext => exact fun h => absurd h Bool.false_ne_true
  | case3 openBraces r later h next hnext ih => exact ih

/-! ### Sequences of statements -/

section Sequences

variable {d : Nat}
variable {inner : Inner}
variable {r' : Reader} {found : Option ParsedStmt} {e : Diagnostic}

/-- A turn of the loop over the statements of a block. -/
theorem run_body_of_ok (before : List ParsedStmt) (hc : r.window.current.kind ≠ .closeCurly)
    (he : r.window.current.kind ≠ .eof)
    (h : (course .statement).run.run r = some (.ok found, r')) :
    (course (.body before)).run.run r =
      (course (.body (before ++ found.toList))).run.run r'.advance := by
  conv => lhs; rw [course]
  show (if r.window.current.kind = .closeCurly then _
    else if r.window.current.kind = .eof then _ else _ : Trial _).run.run r = _
  rw [if_neg hc, if_neg he, run_attempt_bind h]
  rfl

/-- A turn in which a statement could not be read. -/
theorem run_body_of_error (before : List ParsedStmt) (hc : r.window.current.kind ≠ .closeCurly)
    (he : r.window.current.kind ≠ .eof)
    (h : (course .statement).run.run r = some (.error e, r')) :
    (course (.body before)).run.run r =
      if (r'.recover e).1 then (course (.body before)).run.run (r'.recover e).2
      else (course (.body before)).run.run (r'.recover e).2.advance := by
  conv => lhs; rw [course]
  show (if r.window.current.kind = .closeCurly then _
    else if r.window.current.kind = .eof then _ else _ : Trial _).run.run r = _
  rw [if_neg hc, if_neg he, run_attempt_bind h]
  show (course (.synchronize 0) >>= _).run.run (r'.record e) = _
  rw [run_bind_of_ok (run_synchronize 0 _)]
  show (if (r'.recover e).1 then _ else _ : Trial _).run.run _ = _
  split
  · rfl
  · rfl

theorem ends_body (hs : Ends d (course .statement) (Action.statement inner))
    (before : List ParsedStmt) (hd : r.depth = d) :
    (course (.body before)).run.run r = some (body inner before r) ∧
      (body inner before r).2.depth = d := by
  fun_induction body inner before r with
  | case1 before r hc => exact ⟨run_body_of_closing before hc, hd⟩
  -- the end of the source: the block is not closed, and fails
  | case2 before r hc he =>
    refine ⟨?_, hd⟩
    rw [course]
    show (if r.window.current.kind = .closeCurly then _
      else if r.window.current.kind = .eof then _ else _ : Trial _).run.run r = _
    rw [if_neg hc, if_pos he]
    rfl
  -- a statement, and the others
  | case3 before r hc he o found hv ih =>
    obtain ⟨hrun, hdepth⟩ := hs r hd
    have ho : (Action.statement inner).run r = (.ok found, o.2) := Prod.ext hv rfl
    rw [run_body_of_ok before hc he (hrun.trans (congrArg some ho))]
    exact ih hdepth
  | case4 before r hc he o e hv o' hclosed =>
    obtain ⟨hrun, hdepth⟩ := hs r hd
    have ho : (Action.statement inner).run r = (.error e, o.2) := Prod.ext hv rfl
    rw [run_body_of_error before hc he (hrun.trans (congrArg some ho)), if_pos hclosed]
    -- the loop goes round without moving on, and leaves at once
    have hkind := kind_of_synchronize 0 (o.2.record e) hclosed
    exact ⟨run_body_of_closing before hkind, (depth_synchronize 0 _).trans hdepth⟩
  -- a failure, behind which the loop goes on with the next token
  | case5 before r hc he o e hv o' hclosed ih =>
    obtain ⟨hrun, hdepth⟩ := hs r hd
    have ho : (Action.statement inner).run r = (.error e, o.2) := Prod.ext hv rfl
    rw [run_body_of_error before hc he (hrun.trans (congrArg some ho)), if_neg hclosed]
    exact ih ((depth_synchronize 0 _).trans hdepth)

/-- The loop over a whole source moves on in each turn. -/
theorem ends_untilEnd (hs : Ends d (course .statement) (Action.statement inner))
    (before : List ParsedStmt) (hd : r.depth = d) :
    (course (.untilEnd before)).run.run r =
      some (.ok (untilEnd inner before r).1, (untilEnd inner before r).2) := by
  fun_induction untilEnd inner before r with
  | case1 before r he =>
    rw [course]
    show (if r.window.current.kind = .eof then _ else _ : Trial _).run.run r = _
    rw [if_pos he]
    rfl
  -- a statement, and the others
  | case2 before r he o found hv ih =>
    obtain ⟨hrun, hdepth⟩ := hs r hd
    have ho : (Action.statement inner).run r = (.ok found, o.2) := Prod.ext hv rfl
    rw [course]
    show (if r.window.current.kind = .eof then _ else _ : Trial _).run.run r = _
    rw [if_neg he, run_attempt_bind (hrun.trans (congrArg some ho))]
    exact ih hdepth
  -- a failure: behind it the loop moves on, whatever skipping has stopped on
  | case3 before r he o e hv ih =>
    obtain ⟨hrun, hdepth⟩ := hs r hd
    have ho : (Action.statement inner).run r = (.error e, o.2) := Prod.ext hv rfl
    rw [course]
    show (if r.window.current.kind = .eof then _ else _ : Trial _).run.run r = _
    rw [if_neg he, run_attempt_bind (hrun.trans (congrArg some ho))]
    show (course (.synchronize 0) >>= _).run.run (o.2.record e) = _
    rw [run_bind_of_ok (run_synchronize 0 _)]
    exact ih ((depth_synchronize 0 _).trans hdepth)

end Sequences

/-! ### Levels -/

section Levels

open LetFn.Reader.Action

variable {d : Nat}
variable {inner : Inner}

/-- A course that descends goes on a level down. -/
theorem run_descend_bind {Y : Unit → Trial α} (hd : r.depth < maxNesting) :
    ((liftM descend : Trial Unit) >>= Y).run.run r =
      (Y ()).run.run { r with depth := r.depth + 1 } :=
  run_bind_of_ok (congrArg some (run_descend hd))

/-- From the last level nothing descends, whatever would come then. -/
theorem ends_descend_of_le {Y : Unit → Trial α} (hd : maxNesting ≤ d) :
    Ends d ((liftM descend : Trial Unit) >>= Y) tooDeep := by
  rintro r rfl
  exact ⟨run_bind_of_error (congrArg some (run_descend_of_le hd)), rfl⟩

theorem ends_expression (hi : inner.EndsAt (d + 1)) (hd : d < maxNesting) (p : Precedence) :
    Ends d (course (.expression p)) (expression inner p) := by
  rintro r rfl
  obtain ⟨hrun, hdepth⟩ := ends_climb hi p { r with depth := r.depth + 1 } rfl
  rw [run_expression inner p hd, course, run_descend_bind hd, run_attempt_bind hrun]
  refine ⟨?_, congrArg (· - 1) hdepth⟩
  rcases (climb inner p).run { r with depth := r.depth + 1 } with ⟨e | e, r'⟩
  · rfl
  · rfl

theorem ends_block (hi : inner.EndsAt (d + 1)) (hd : d < maxNesting) :
    Ends d (course .block) (block inner) := by
  rintro r rfl
  obtain ⟨hrun, hdepth⟩ := ends_body (r := r.entered) (ends_statement hi) [] rfl
  rw [run_block inner hd, course, run_bind_of_ok (r := r) rfl, run_descend_bind hd]
  refine ⟨?_, congrArg (· - 1) hdepth⟩
  show ((course (.body [])).attempt >>= _).run.run r.entered = _
  rw [run_attempt_bind hrun]
  rcases body inner [] r.entered with ⟨e | ss, r'⟩
  · rfl
  · rfl

theorem ends_tooDeep (hd : maxNesting ≤ d) :
    (∀ p, Ends d (course (.expression p)) tooDeep) ∧ Ends d (course .block) tooDeep := by
  constructor
  · intro p
    rw [course]
    exact ends_descend_of_le hd
  · intro r hr
    rw [course, run_bind_of_ok (r := r) rfl]
    exact ends_descend_of_le hd r hr

/-- Recursion ends with the levels, from whatever depth it starts. -/
theorem ends_levels {n : Nat} (hn : maxNesting < d + n) : (Inner.levels n).EndsAt d := by
  -- on the levels, with a depth that grows as they get fewer
  induction n generalizing d with
  | zero =>
    -- the counter is beyond the limit, so nothing is read within
    obtain ⟨hexpression, hblock⟩ := ends_tooDeep (d := d) (by omega)
    exact ⟨hexpression, hblock⟩
  | succ n ih =>
    rcases Nat.lt_or_ge d maxNesting with hd | hd
    · -- there is a level to descend to
      have hi := ih (d := d + 1) (by omega)
      exact ⟨ends_expression hi hd, ends_block hi hd⟩
    · -- the counter ends recursion here, although there are levels left
      obtain ⟨hexpression, hblock⟩ := ends_tooDeep hd
      constructor
      · rintro p r rfl
        obtain ⟨hrun, hdepth⟩ := hexpression p r rfl
        rw [← run_expression_of_le (Inner.levels n) p hd] at hrun hdepth
        exact ⟨hrun, hdepth⟩
      · rintro r rfl
        obtain ⟨hrun, hdepth⟩ := hblock r rfl
        rw [← run_block_of_le (Inner.levels n) hd] at hrun hdepth
        exact ⟨hrun, hdepth⟩

theorem ends_outermost : Inner.outermost.EndsAt d :=
  ends_levels (Nat.lt_of_lt_of_le (Nat.lt_succ_self _) (Nat.le_add_left _ d))

end Levels

/-! ### Calls -/

theorem run_course (c : Call) (r : Reader) : c.course.run.run r = some (c.action.run r) := by
  have hi : Inner.outermost.EndsAt r.depth := ends_outermost
  cases c with
  | advance => rfl
  | expect kind => rfl
  -- a program is the loop over the whole source; all other calls are single handlers
  | program => exact run_bind_of_ok (ends_untilEnd (ends_statement hi) [] rfl)
  | expression p => exact (hi.expression p r rfl).1
  | leading form => exact (ends_leading hi form r rfl).1
  | linked form p left => exact (ends_linked hi p left form r rfl).1
  | statement => exact (ends_statement hi r rfl).1
  | formed form => exact (ends_formed hi form r rfl).1
  | expressionStatement => exact (ends_expressionStatement hi r rfl).1
  | block => exact (hi.block r rfl).1

/-- Every routine ends, wherever it starts. -/
theorem exists_run_course (c : Routine) (r : Reader) : ∃ o, c.course.run.run r = some o := by
  have hi : Inner.outermost.EndsAt r.depth := ends_outermost
  cases c with
  | synchronize openBraces => exact ⟨_, run_synchronize openBraces r⟩
  | expression p => exact ⟨_, (hi.expression p r rfl).1⟩
  | climb p => exact ⟨_, (ends_climb hi p r rfl).1⟩
  | links p left => exact ⟨_, (ends_links hi p left r rfl).1⟩
  | leading form => exact ⟨_, (ends_leading hi form r rfl).1⟩
  | unary => exact ⟨_, (ends_unary hi r rfl).1⟩
  | group => exact ⟨_, (ends_group hi r rfl).1⟩
  | alternative => exact ⟨_, (ends_alternative hi r rfl).1⟩
  | conditional => exact ⟨_, (ends_conditional hi r rfl).1⟩
  | parameters => exact ⟨_, (ends_parameters r rfl).1⟩
  | moreParameters before => exact ⟨_, (ends_moreParameters before r rfl).1⟩
  | function => exact ⟨_, (ends_function hi r rfl).1⟩
  | linked form p left => exact ⟨_, (ends_linked hi p left form r rfl).1⟩
  | binary p left => exact ⟨_, (ends_binary hi p left r rfl).1⟩
  | call callee => exact ⟨_, (ends_call hi callee r rfl).1⟩
  | arguments => exact ⟨_, (ends_arguments hi r rfl).1⟩
  | moreArguments before => exact ⟨_, (ends_moreArguments hi before r rfl).1⟩
  | statement => exact ⟨_, (ends_statement hi r rfl).1⟩
  | formed form => exact ⟨_, (ends_formed hi form r rfl).1⟩
  | binding => exact ⟨_, (ends_binding hi r rfl).1⟩
  | returning => exact ⟨_, (ends_returning hi r rfl).1⟩
  | expressionStatement => exact ⟨_, (ends_expressionStatement hi r rfl).1⟩
  | block => exact ⟨_, (hi.block r rfl).1⟩
  | body before => exact ⟨_, (ends_body (ends_statement hi) before rfl).1⟩
  | untilEnd before => exact ⟨_, ends_untilEnd (ends_statement hi) before rfl⟩

/-- **Reading always ends.**  Whatever token is current, and whatever has become
of the reader before, each call comes to an end, also where nothing counts the
tokens and levels that are left; and it is the end that the action comes to.
So does every routine within a call, from wherever it starts, and with it each
loop: skipping, the statements of a block and of a source, parameters,
arguments and links. -/
theorem course_ends (r : Reader) :
    (∀ c : Call, c.course.run.run r = some (c.action.run r)) ∧
    ∀ c : Routine, ∃ o, c.course.run.run r = some o :=
  ⟨fun c => run_course c r, fun c => exists_run_course c r⟩

end Reader

end LetFn
