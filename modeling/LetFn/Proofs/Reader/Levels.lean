/-
LetFn/Proofs/Reader/Levels.lean

What readers do, and how deep they are.

There is a lemma for each handler and one for each of the three loops over
statements: it comes to the same as its parser (`Action.Follows`).  What is
read within an expression or block does so by assumption (`Inner.Follows`),
and `follows_levels` ties the knot.

Only `expression` and `block` change the counters.  They are also the only
ones that hold on to a failure before they pass it on, and so there is one
place for each where the counters are put back.

Main statements: `follows_levels`, and `untilEnd_follows` for whole sources.
-/
import LetFn.Parser.Program
import LetFn.Proofs.Reader
import LetFn.Reader.Handlers

namespace LetFn

variable {α β : Type}
variable {r : Reader} {s : TokenStream}

namespace Reader

/-- What is read within others at depth `d`, and the parsers that say how. -/
structure Inner.Follows (d : Nat) (inner : Inner) (inner' : Nested) : Prop where
  expression : ∀ p, Action.Follows d (inner.expression p) (inner'.expression p)
  block : Action.Follows d inner.block inner'.block

namespace Action

variable {d : Nat}
variable {inner : Inner} {inner' : Nested}

/-! ### Leading parts -/

theorem follows_identifier : Follows d identifier Parser.identifier :=
  follows_current.bind fun _ => follows_pure _

theorem follows_integer : Follows d integer Parser.integer := by
  refine follows_current.bind fun token => ?_
  rcases Text.integer? token.text with - | value
  · exact follows_fail _
  · exact follows_pure _

theorem follows_boolean : Follows d boolean Parser.boolean :=
  follows_current.bind fun _ => follows_pure _

theorem follows_unary (hi : inner.Follows d inner') :
    Follows d (unary inner) (Parser.unary inner') :=
  follows_current.bind fun _ => follows_advance.bind fun _ =>
    (hi.expression .unary).bind fun _ => follows_pure _

theorem follows_group (hi : inner.Follows d inner') :
    Follows d (group inner) (Parser.group inner') :=
  follows_advance.bind fun _ => (hi.expression .lowest).bind fun _ =>
    (follows_expect .closeParen).bind fun _ => follows_pure _

theorem follows_alternative (hi : inner.Follows d inner') :
    Follows d (alternative inner) (Parser.alternative inner') := by
  refine follows_peek.bind fun next => .ite (fun _ => ?_) fun _ => follows_pure _
  exact follows_advance.bind fun _ => (follows_expect .openCurly).bind fun _ =>
    hi.block.bind fun _ => follows_pure _

theorem follows_conditional (hi : inner.Follows d inner') :
    Follows d (conditional inner) (Parser.conditional inner') :=
  follows_current.bind fun _ => (follows_expect .openParen).bind fun _ =>
    follows_advance.bind fun _ => (hi.expression .lowest).bind fun _ =>
    (follows_expect .closeParen).bind fun _ => (follows_expect .openCurly).bind fun _ =>
    hi.block.bind fun _ => (follows_alternative hi).bind fun _ =>
    follows_current.bind fun _ => follows_pure _

theorem follows_listed {α : Type} {A : Action α} {p : Parser α} (h : Follows d A p) :
    Follows d (listed A) (Parser.listed p) := by
  refine follows_peek.bind fun next => .ite (fun _ => ?_) fun _ => ?_
  · exact follows_advance.bind fun _ => follows_pure _
  · exact (follows_separated h).bind fun _ => (follows_expect .closeParen).bind fun _ =>
      follows_pure _

theorem follows_parameter : Follows d parameter Parser.parameter :=
  (follows_expect .identifier).bind fun _ => follows_pure _

theorem follows_function (hi : inner.Follows d inner') :
    Follows d (function inner) (Parser.function inner') :=
  follows_current.bind fun _ => (follows_expect .openParen).bind fun _ =>
    (follows_listed follows_parameter).bind fun _ => (follows_expect .openCurly).bind fun _ =>
    hi.block.bind fun _ => follows_current.bind fun _ => follows_pure _

theorem follows_leading (hi : inner.Follows d inner') (form : Lead) :
    Follows d (leading inner form) (Parser.leading inner' form) := by
  cases form with
  | identifier => exact follows_identifier
  | integer => exact follows_integer
  | boolean => exact follows_boolean
  | unary => exact follows_unary hi
  | group => exact follows_group hi
  | conditional => exact follows_conditional hi
  | function => exact follows_function hi

/-! ### Links -/

theorem follows_binary (hi : inner.Follows d inner') (p : Precedence) (left : ParsedExpr) :
    Follows d (binary inner p left) (Parser.binary inner' p left) :=
  follows_current.bind fun _ => follows_advance.bind fun _ =>
    (hi.expression p).bind fun _ => follows_pure _

theorem follows_argument (hi : inner.Follows d inner') :
    Follows d (argument inner) (Parser.argument inner') :=
  follows_advance.bind fun _ => hi.expression .lowest

theorem follows_call (hi : inner.Follows d inner') (callee : ParsedExpr) :
    Follows d (call inner callee) (Parser.call inner' callee) :=
  follows_current.bind fun _ => (follows_listed (follows_argument hi)).bind fun _ =>
    follows_current.bind fun _ => follows_pure _

theorem follows_linked (hi : inner.Follows d inner') (p : Precedence) (left : ParsedExpr)
    (form : Link) : Follows d (linked inner p left form) (Parser.linked inner' p left form) := by
  cases form with
  | binary => exact follows_binary hi p left
  | call => exact follows_call hi left

theorem follows_link (hi : inner.Follows d inner') (left : ParsedExpr) :
    Follows d (link inner left) (Parser.link inner' left) := by
  refine follows_current.bind fun token => ?_
  rcases token.kind.link? with - | form
  · exact follows_pure left
  · exact follows_linked hi _ left form

/-! ### Expressions -/

/-- Nothing binds looser than a semicolon, so it does not matter that it is
looked for. -/
theorem climbs_iff (p : Precedence) (k : Kind) :
    (k ≠ .semicolon && p < k.precedence) = decide (p < k.precedence) := by
  by_cases hk : k = .semicolon
  · subst hk
    exact (decide_eq_false (Precedence.not_lt_lowest p)).symm
  · rw [decide_eq_true hk, Bool.true_and]

theorem follows_lead (hi : inner.Follows d inner') :
    Follows d (lead inner) (Parser.lead inner') := by
  refine follows_current.bind fun token => ?_
  rcases token.kind.lead? with - | form
  · exact follows_fail _
  · exact follows_leading hi form

theorem follows_climb (hi : inner.Follows d inner') (p : Precedence) :
    Follows d (climb inner p) (Parser.expression inner' p) :=
  (follows_lead hi).bind fun left =>
    follows_foldPeek (climbs_iff p) (fun e => follows_link hi e) left

/-! ### Levels -/

theorem run_descend (h : r.depth < maxNesting) :
    descend.run r = (.ok (), { r with depth := r.depth + 1 }) :=
  if_neg (Nat.not_le_of_lt h)

/-- From the last level nothing descends. -/
theorem run_descend_of_le (h : maxNesting ≤ r.depth) : descend.run r = tooDeep.run r :=
  if_pos h

theorem follows_tooDeep : Follows d (tooDeep : Action α) Nested.tooDeep :=
  follows_current.bind fun _ => follows_fail _

/-- Whatever an expression comes to, it is passed on behind the counter. -/
theorem run_expression (inner : Inner) (p : Precedence) (hd : r.depth < maxNesting) :
    let o := (climb inner p).run { r with depth := r.depth + 1 }
    (expression inner p).run r = (o.1, { o.2 with depth := o.2.depth - 1 }) := by
  intro o
  show after (descend.run r) _ = _
  rw [run_descend hd]
  show (resume o.1).run { o.2 with depth := o.2.depth - 1 } = _
  -- the counter goes down for a failure as for a value
  rcases o.1 with e | e
  · rfl
  · rfl

theorem run_expression_of_le (inner : Inner) (p : Precedence) (hd : maxNesting ≤ r.depth) :
    (expression inner p).run r = tooDeep.run r := by
  show after (descend.run r) _ = _
  rw [run_descend_of_le hd]
  rfl

theorem follows_expression (hi : inner.Follows (d + 1) inner') (hd : d < maxNesting)
    (p : Precedence) : Follows d (expression inner p) (Parser.expression inner' p) := by
  rintro r s h rfl
  -- within the expression, the reader is one level further down
  let deeper : Reader := { r with depth := r.depth + 1 }
  obtain ⟨hvalue, hcarried⟩ := follows_climb hi p deeper s h rfl
  rw [run_expression inner p hd]
  exact ⟨hvalue, hcarried.shows, hcarried.errors, congrArg (· - 1) hcarried.depth,
    hcarried.blockDepth⟩

theorem follows_expression_of_le (hd : maxNesting ≤ d) (p : Precedence) :
    Follows d (expression inner p) Nested.tooDeep := by
  rintro r s h rfl
  rw [run_expression_of_le inner p hd]
  exact follows_tooDeep r s h rfl

/-! ### Single statements -/

theorem follows_binding (hi : inner.Follows d inner') :
    Follows d (binding inner) (Parser.binding inner') :=
  follows_current.bind fun _ => (follows_expect .identifier).bind fun _ =>
    (follows_expect .assignment).bind fun _ => follows_advance.bind fun _ =>
    (hi.expression .lowest).bind fun _ => (follows_accept .semicolon).bind fun _ =>
    follows_current.bind fun _ => follows_pure _

theorem follows_returning (hi : inner.Follows d inner') :
    Follows d (returning inner) (Parser.returning inner') :=
  follows_current.bind fun _ => follows_advance.bind fun _ =>
    (hi.expression .lowest).bind fun _ => (follows_accept .semicolon).bind fun _ =>
    follows_current.bind fun _ => follows_pure _

theorem follows_expressionStatement (hi : inner.Follows d inner') :
    Follows d (expressionStatement inner) (Parser.expressionStatement inner') :=
  follows_current.bind fun _ => (hi.expression .lowest).bind fun _ =>
    (follows_accept .semicolon).bind fun _ => follows_current.bind fun _ => follows_pure _

theorem follows_blockStatement (hi : inner.Follows d inner') :
    Follows d (blockStatement inner) (Parser.blockStatement inner') :=
  hi.block.bind fun _ => follows_pure _

theorem follows_formed (hi : inner.Follows d inner') (form : StatementForm) :
    Follows d (formed inner form) (Parser.formed inner' form) := by
  cases form with
  | binding => exact follows_binding hi
  | returning => exact follows_returning hi
  | block => exact follows_blockStatement hi

theorem follows_statement (hi : inner.Follows d inner') :
    Follows d (statement inner) (Parser.statement inner') := by
  refine follows_current.bind fun first => .announce ?_
  refine .ite (fun _ => follows_pure none) fun _ => ?_
  rcases first.kind.statementForm? with - | form
  · exact (follows_expressionStatement hi).bind fun _ => follows_pure _
  · exact (follows_formed hi form).bind fun _ => follows_pure _

end Action

/-! ### Recovery -/

theorem skipped_eq (inBlock : Bool) (openBraces : Nat) (k : Kind) :
    skipped inBlock openBraces k =
      if stopsOn inBlock openBraces k then .inl (decide (k = .closeCurly))
      else .inr (bracesAfter openBraces k) := by
  cases k
  -- only these two look at the count of braces, or at whether there is a block
  case closeCurly =>
    cases inBlock <;> cases openBraces <;> rfl
  case semicolon =>
    cases openBraces <;> rfl
  all_goals cases openBraces <;> simp [skipped, stopsOn, bracesAfter]

theorem skipped_eq_inl_iff {inBlock closed : Bool} {openBraces : Nat} {k : Kind} :
    skipped inBlock openBraces k = .inl closed ↔
      stopsOn inBlock openBraces k ∧ closed = decide (k = .closeCurly) := by
  rw [skipped_eq]
  split
  · next h => exact ⟨fun he => ⟨h, (Sum.inl.inj he).symm⟩, fun he => congrArg Sum.inl he.2.symm⟩
  · next h => exact iff_of_false Sum.inr_ne_inl fun he => h he.1

theorem skipped_eq_inr_iff {inBlock : Bool} {openBraces later : Nat} {k : Kind} :
    skipped inBlock openBraces k = .inr later ↔
      ¬ stopsOn inBlock openBraces k ∧ later = bracesAfter openBraces k := by
  rw [skipped_eq]
  split
  · next h => exact iff_of_false Sum.inl_ne_inr fun he => he.1 h
  · next h => exact ⟨fun he => ⟨h, (Sum.inr.inj he).symm⟩, fun he => congrArg Sum.inr he.2.symm⟩

theorem endsSkipping_eq (inBlock : Bool) (openBraces : Nat) (next : Kind) :
    (openBraces = 0 && ((inBlock && next = .closeCurly) || next = .kwLet || next = .kwReturn)) =
      stopsBefore inBlock openBraces next := by
  rw [stopsBefore, Bool.or_assoc, Bool.or_comm (inBlock && _)]

theorem synchronize_eq (openBraces : Nat) (r : Reader) :
    r.synchronize openBraces =
      if stopsOn r.inBlock openBraces r.window.current.kind then
        (decide (r.window.current.kind = .closeCurly), r)
      else if stopsBefore r.inBlock (bracesAfter openBraces r.window.current.kind)
          r.window.peek.kind then (false, r)
      else r.advance.synchronize (bracesAfter openBraces r.window.current.kind) := by
  rw [synchronize]
  split
  · next closed h =>
    obtain ⟨hstop, rfl⟩ := skipped_eq_inl_iff.mp h
    rw [if_pos hstop]
  · next later h =>
    obtain ⟨hstop, rfl⟩ := skipped_eq_inr_iff.mp h
    rw [if_neg hstop, ← endsSkipping_eq]

/-- Recovery leads to where skipping leads. -/
theorem synchronize_follows (h : r.window.Shows s) (openBraces : Nat) :
    (r.synchronize openBraces).1 = (skipStatement r.inBlock openBraces s).value ∧
      r.Carried (skipStatement r.inBlock openBraces s) (r.synchronize openBraces).2 := by
  generalize hblock : r.inBlock = inBlock
  fun_induction skipStatement inBlock openBraces s generalizing r
  -- it stops on the current token
  case case1 openBraces s hstop =>
    rw [synchronize_eq, hblock, h.current, if_pos hstop]
    exact ⟨rfl, .refl h⟩
  -- it stops before the next one
  case case2 openBraces s hstop later hbefore =>
    rw [synchronize_eq, hblock, h.current, h.peek, if_neg hstop, if_pos hbefore]
    exact ⟨rfl, .refl h⟩
  -- it goes on
  case case3 openBraces s hstop later hbefore o ih =>
    rw [synchronize_eq, hblock, h.current, h.peek, if_neg hstop, if_neg hbefore]
    obtain ⟨hvalue, hcarried⟩ := ih (r := r.advance) h.advance hblock
    exact ⟨hvalue, hcarried.shows, hcarried.errors, hcarried.depth, hcarried.blockDepth⟩

/-! ### Sequences of statements -/

section Sequences

variable {d : Nat}
variable {inner : Inner} {inner' : Nested}
variable {o : Outcome β} {r' : Reader}

theorem Carried.inBlock (h : r.Carried o r') : r'.inBlock = r.inBlock := by
  show decide (0 < r'.blockDepth) = _
  rw [h.blockDepth]
  rfl

/-- A run, one step more, and another run. -/
theorem Carried.next {o' : Outcome α} {r'' : Reader} (h : r.Carried o r')
    (h' : r'.advance.Carried o' r'') {a : α} :
    r.Carried ⟨a, o'.rest, o.events ++ o.rest.sight :: o'.events⟩ r'' where
  shows := h'.shows
  errors := by
    rw [h'.errors, errorsOf_append, errorsOf_sight, ← List.append_assoc]
    exact congrArg (· ++ _) h.errors
  depth := h'.depth.trans h.depth
  blockDepth := h'.blockDepth.trans h.blockDepth

/-- A run that failed, and what is skipped behind it. -/
theorem Carried.recover (h : r.Carried o r') (e : Diagnostic) :
    (r'.recover e).1 = (skipStatement r.inBlock 0 o.rest).value ∧
      r.Carried ⟨(), (skipStatement r.inBlock 0 o.rest).rest,
          o.events ++ .failure e :: (skipStatement r.inBlock 0 o.rest).events⟩
        (r'.recover e).2 := by
  have hblock : (r'.record e).inBlock = r.inBlock := h.inBlock
  obtain ⟨hvalue, hcarried⟩ := synchronize_follows (r := r'.record e) h.shows 0
  rw [hblock] at hvalue hcarried
  refine ⟨hvalue, hcarried.shows, ?_, hcarried.depth.trans h.depth,
    hcarried.blockDepth.trans h.blockDepth⟩
  show ((r'.record e).synchronize 0).2.errors = _
  rw [hcarried.errors, errorsOf_append, errorsOf_failure]
  -- the failure is recorded before anything is skipped
  show r'.errors ++ [e] ++ _ = _
  rw [h.errors, List.append_assoc, List.append_assoc]
  rfl

/-- What the body of a block comes to: its statements if it stops on a closing
brace, and a failure if it does not. -/
def closed (o : Outcome (List ParsedStmt)) : Except Diagnostic (List ParsedStmt) :=
  if o.rest.current.kind = .closeCurly then .ok o.value
  else .error ⟨.unexpectedToken .closeCurly o.rest.current.kind, o.rest.current.span.start⟩

/-- Statements that have been read before. -/
theorem map_closed (before ss : List ParsedStmt) (o : Outcome (List ParsedStmt))
    (events : List Event) :
    (closed ⟨ss ++ o.value, o.rest, events⟩).map (before ++ ·) =
      (closed o).map (before ++ ss ++ ·) := by
  unfold closed
  split
  · exact congrArg Except.ok (List.append_assoc ..).symm
  · rfl

/-- One statement, with its value and with the reader behind it. -/
theorem exists_run_statement (hs : Action.Follows d (.statement inner) (Parser.statement inner'))
    (h : r.window.Shows s) (hd : r.depth = d) {v : Except Diagnostic (Option ParsedStmt)}
    (hv : ((Parser.statement inner').run s).value = v) :
    ∃ r', (Action.statement inner).run r = (v, r') ∧
      r.Carried ((Parser.statement inner').run s) r' := by
  obtain ⟨hvalue, hcarried⟩ := hs r s h hd
  exact ⟨_, Prod.ext (hvalue.trans hv) rfl, hcarried⟩

/-- The body of a block is read as the sequence of its statements. -/
theorem body_follows (hs : Action.Follows d (.statement inner) (Parser.statement inner'))
    (h : r.window.Shows s) (hd : r.depth = d) (hblock : r.inBlock) (before : List ParsedStmt) :
    (body inner before r).1 = (closed (Parser.runStatements inner' true s)).map (before ++ ·) ∧
      r.Carried (Parser.runStatements inner' true s) (body inner before r).2 := by
  fun_induction Parser.runStatements inner' true s generalizing r before
  -- the sequence has ended: on the closing brace, or at the end of the source
  case case1 s hends =>
    rw [body, h.current, closed]
    split
    · exact ⟨congrArg Except.ok (List.append_nil _).symm, .refl h⟩
    · next hc =>
      have he : s.current.kind = .eof := by simpa [Parser.endsSequence, hc] using hends
      rw [dif_pos he, he]
      exact ⟨rfl, .refl h⟩
  -- a statement, which joins those before
  case case2 s hends o found hv later ih =>
    obtain ⟨hc, he⟩ := h.goesOn hends
    obtain ⟨r', hrun, hcarried⟩ := exists_run_statement hs h hd hv
    obtain ⟨hvalue, hlater⟩ := ih (r := r'.advance) hcarried.shows.advance
      (hcarried.depth.trans hd) (hcarried.inBlock.trans hblock) (before ++ found.toList)
    rw [body_of_ok hc he hrun, map_closed]
    exact ⟨hvalue, hcarried.next hlater⟩
  -- a failure behind which skipping stands on the closing brace, and the loop leaves
  case case3 s hends o e hv skipped events hclosed =>
    obtain ⟨hc, he⟩ := h.goesOn hends
    obtain ⟨r', hrun, hcarried⟩ := exists_run_statement hs h hd hv
    obtain ⟨hskip, hrecover⟩ := hcarried.recover e
    rw [hblock] at hskip hrecover
    rw [body_of_closing hc he hrun (hskip.trans hclosed), closed,
      if_pos (current_of_value_skipStatement hclosed)]
    exact ⟨congrArg Except.ok (List.append_nil _).symm, hrecover.congr rfl rfl⟩
  -- a failure behind which the loop moves on
  case case4 s hends o e hv skipped events hclosed later ih =>
    obtain ⟨hc, he⟩ := h.goesOn hends
    obtain ⟨r', hrun, hcarried⟩ := exists_run_statement hs h hd hv
    obtain ⟨hskip, hrecover⟩ := hcarried.recover e
    rw [hblock] at hskip hrecover
    obtain ⟨hvalue, hlater⟩ := ih (r := (r'.recover e).2.advance) hrecover.shows.advance
      (hrecover.depth.trans hd) (hrecover.inBlock.trans hblock) before
    rw [body_of_error hc he hrun (hskip.trans (Bool.eq_false_iff.mpr hclosed))]
    exact ⟨hvalue, hrecover.next hlater⟩

/-- A whole source is read as the sequence of its statements. -/
theorem untilEnd_follows (hs : Action.Follows d (.statement inner) (Parser.statement inner'))
    (h : r.window.Shows s) (hd : r.depth = d) (hblock : r.inBlock = false)
    (before : List ParsedStmt) :
    (untilEnd inner before r).1 = before ++ (Parser.runStatements inner' false s).value ∧
      r.Carried (Parser.runStatements inner' false s) (untilEnd inner before r).2 := by
  fun_induction Parser.runStatements inner' false s generalizing r before
  case case1 s hends =>
    have he : r.window.current.kind = .eof := by
      simpa [Parser.endsSequence, h.current] using hends
    rw [untilEnd, dif_pos he]
    exact ⟨(List.append_nil _).symm, .refl h⟩
  case case2 s hends o found hv later ih =>
    have he := h.current ▸ Parser.ne_eof_of_not_endsSequence hends
    obtain ⟨r', hrun, hcarried⟩ := exists_run_statement hs h hd hv
    obtain ⟨hvalue, hlater⟩ := ih (r := r'.advance) hcarried.shows.advance
      (hcarried.depth.trans hd) (hcarried.inBlock.trans hblock) (before ++ found.toList)
    rw [untilEnd_of_ok he hrun, ← List.append_assoc]
    exact ⟨hvalue, hcarried.next hlater⟩
  case case3 s hends o e hv skipped events hclosed =>
    -- outside of blocks skipping ends on no closing brace
    exact absurd hclosed (by rw [value_skipStatement_outside]; decide)
  -- a failure: the loop moves on, as it does behind a statement
  case case4 s hends o e hv skipped events hclosed later ih =>
    have he := h.current ▸ Parser.ne_eof_of_not_endsSequence hends
    obtain ⟨r', hrun, hcarried⟩ := exists_run_statement hs h hd hv
    obtain ⟨-, hrecover⟩ := hcarried.recover e
    rw [hblock] at hrecover
    obtain ⟨hvalue, hlater⟩ := ih (r := (r'.recover e).2.advance) hrecover.shows.advance
      (hrecover.depth.trans hd) (hrecover.inBlock.trans hblock) before
    rw [untilEnd_of_error he hrun]
    exact ⟨hvalue, hrecover.next hlater⟩

end Sequences

/-! ### Blocks and levels -/

/-- In a block: one token further on, and both counters up. -/
def entered (r : Reader) : Reader where
  window := r.window.advance
  errors := r.errors
  depth := r.depth + 1
  blockDepth := r.blockDepth + 1

/-- Out of a block: both counters down. -/
def left (r : Reader) : Reader :=
  { r with depth := r.depth - 1, blockDepth := r.blockDepth - 1 }

namespace Action

variable {d : Nat}
variable {inner : Inner} {inner' : Nested}

/-- The block whose body has come to this. -/
def enclosed (opening closing : Token) (body : Except Diagnostic (List ParsedStmt)) :
    Except Diagnostic ParsedBlock :=
  body.map fun ss => ⟨⟨opening, opening.span.cover closing.span⟩, ss⟩

theorem run_block (inner : Inner) (hd : r.depth < maxNesting) :
    let o := body inner [] r.entered
    (block inner).run r = (enclosed r.window.current o.2.window.current o.1, o.2.left) := by
  intro o
  show after (descend.run r) _ = _
  rw [run_descend hd]
  show after ((resume o.1).run o.2.left) _ = _
  rcases o.1 with e | ss
  · rfl
  · rfl

theorem follows_block (hi : inner.Follows (d + 1) inner') (hd : d < maxNesting) :
    Follows d (block inner) (Parser.block inner') := by
  rintro r s h rfl
  obtain ⟨hvalue, hcarried⟩ := body_follows (r := r.entered) (follows_statement hi) h.advance rfl
    (decide_eq_true (Nat.succ_pos _)) []
  rw [run_block inner hd, Parser.run_block, hvalue, h.current, hcarried.shows.current]
  constructor
  · show enclosed _ _ ((closed _).map _) = if _ then _ else _
    unfold closed
    split
    · rfl
    · rfl
  · exact ⟨hcarried.shows, hcarried.errors, congrArg (· - 1) hcarried.depth,
      congrArg (· - 1) hcarried.blockDepth⟩

theorem run_block_of_le (inner : Inner) (hd : maxNesting ≤ r.depth) :
    (block inner).run r = tooDeep.run r := by
  show after (descend.run r) _ = _
  rw [run_descend_of_le hd]
  rfl

theorem follows_block_of_le (hd : maxNesting ≤ d) : Follows d (block inner) Nested.tooDeep := by
  rintro r s h rfl
  rw [run_block_of_le inner hd]
  exact follows_tooDeep r s h rfl

end Action

/-- Behind `d` levels, what is read within is what the levels to spare allow.
The recursion of the handlers may go on for longer than that: it is the
counter that ends it. -/
theorem follows_levels {d n : Nat} (hd : d ≤ maxNesting) (hn : maxNesting < d + n) :
    (Inner.levels n).Follows d (.within (maxNesting - d)) := by
  -- on the levels of the handlers; those of the parsers are what the counter leaves
  induction n generalizing d with
  | zero => omega
  | succ n ih =>
    rcases Nat.eq_or_lt_of_le hd with rfl | hlt
    · -- no level is left, on either side
      rw [Nat.sub_self]
      exact ⟨Action.follows_expression_of_le (Nat.le_refl _),
        Action.follows_block_of_le (Nat.le_refl _)⟩
    · have hi := ih (d := d + 1) hlt (by omega)
      obtain ⟨k, hk⟩ : ∃ k, maxNesting - d = k + 1 := ⟨maxNesting - d - 1, by omega⟩
      rw [show maxNesting - (d + 1) = k by omega] at hi
      rw [hk]
      exact ⟨Action.follows_expression hi hlt, Action.follows_block hi hlt⟩

theorem follows_outermost : Inner.outermost.Follows 0 .outermost :=
  follows_levels (Nat.zero_le _) (Nat.lt_of_lt_of_eq (Nat.lt_succ_self _) (Nat.zero_add _).symm)

end Reader

end LetFn
