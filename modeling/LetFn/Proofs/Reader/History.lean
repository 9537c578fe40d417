/-
LetFn/Proofs/Reader/History.lean

A reader has no memory of what it was asked to do.

Whatever calls have been made of it, and however they ended, both counters
are back at zero between two calls, and the window is where it would be if
so many tokens had been taken from the source beforehand and the reader had
then been made (`At`).  So the next call comes to the same as it would with
a reader that has just been made, of any source that gives the same tokens
from there on; only the errors that have been kept are still there.

A call follows a parser (`Call.parser`, `call_follows`), and that does not
know anything but the stream it is run on.

Main statements: `run_program_ofSource`, by which a reader reads a source as
`parse` does, and `run_afterCalls`.
-/
import LetFn.Proofs.Reader.Levels

namespace LetFn

namespace Reader

variable {source : TokenSource}
variable {r : Reader} {s : TokenStream}
variable {k : Nat}

/-! ### Calls as parsers -/

/-- What a call comes to on a stream. -/
def Call.parser : (c : Call) → Parser c.Result
  | advance => Parser.advance
  | expect kind => Parser.expect kind
  | program => do return ⟨← Parser.statements .outermost false⟩
  | expression p => Nested.outermost.expression p
  | leading form => Parser.leading .outermost form
  | linked form p left => Parser.linked .outermost p left form
  | statement => Parser.statement .outermost
  | formed form => Parser.formed .outermost form
  | expressionStatement => Parser.expressionStatement .outermost
  | block => Nested.outermost.block

/-- Between two calls, every call follows its parser. -/
theorem call_follows (c : Call) (h : r.window.Shows s) (hd : r.depth = 0)
    (hb : r.blockDepth = 0) : (c.action.run r).1 = (c.parser.run s).value ∧
      r.Carried (c.parser.run s) (c.action.run r).2 := by
  have hi := follows_outermost
  cases c with
  | advance => exact Action.follows_advance r s h hd
  | expect kind => exact Action.follows_expect kind r s h hd
  | program =>
    -- between two calls no block is open, so the sequence is that of a program
    have hblock : r.inBlock = false := decide_eq_false (by rw [hb]; exact Nat.lt_irrefl 0)
    obtain ⟨hvalue, hcarried⟩ := untilEnd_follows (Action.follows_statement hi) h hd hblock []
    exact ⟨congrArg (fun ss => Except.ok (Program.mk ss)) hvalue,
      hcarried.congr rfl (congrArg errorsOf (List.append_nil _))⟩
  | expression p => exact hi.expression p r s h hd
  | leading form => exact Action.follows_leading hi form r s h hd
  | linked form p left => exact Action.follows_linked hi p left form r s h hd
  | statement => exact Action.follows_statement hi r s h hd
  | formed form => exact Action.follows_formed hi form r s h hd
  | expressionStatement => exact Action.follows_expressionStatement hi r s h hd
  | block => exact hi.block r s h hd

/-- A reader that has just been made reads the source as `parse` does. -/
theorem run_program_ofSource (source : TokenSource) :
    let o := Call.program.action.run (ofSource source)
    o.1 = .ok (parse source.stream).program ∧ o.2.errors = (parse source.stream).errors := by
  intro o
  obtain ⟨hvalue, hcarried⟩ :=
    call_follows (r := ofSource source) .program (Window.shows_ofSource source) rfl rfl
  refine ⟨hvalue, hcarried.errors.trans ?_⟩
  exact congrArg errorsOf (List.append_nil (Parser.runStatements .outermost false _).events)

/-! ### Between two calls -/

/-- The reader stands between two calls, with `k` tokens of the source behind it. -/
structure At (source : TokenSource) (k : Nat) (r : Reader) : Prop where
  window : r.window = ⟨source.skip (k + 2), source.token k, source.token (k + 1)⟩
  depth : r.depth = 0
  blockDepth : r.blockDepth = 0

theorem at_ofSource (source : TokenSource) : At source 0 (ofSource source) := ⟨rfl, rfl, rfl⟩

theorem At.shows (h : At source k r) : r.window.Shows (source.skip k).stream := by
  rw [h.window]
  exact Window.shows_ofSource (source.skip k)

/-- A call leads on, and puts both counters back. -/
theorem At.call (h : At source k r) (c : Call) : ∃ k' ≥ k, At source k' (c.action.run r).2 := by
  obtain ⟨-, hcarried⟩ := call_follows c h.shows h.depth h.blockDepth
  obtain ⟨n, hn⟩ := c.action.forward r
  refine ⟨k + n, Nat.le_add_right k n, ?_, hcarried.depth.trans h.depth,
    hcarried.blockDepth.trans h.blockDepth⟩
  have hwindow : r.window = .move k (.ofSource source) :=
    h.window.trans (Window.move_ofSource k source).symm
  rw [hn, hwindow, Window.move_move, Window.move_ofSource]
  rfl

/-- Whatever calls are made. -/
theorem exists_at_afterCalls (source : TokenSource) (calls : List Call) :
    ∃ k, At source k ((ofSource source).afterCalls calls) := by
  have run (r : Reader) (hr : ∃ k, At source k r) : ∃ k, At source k (r.afterCalls calls) := by
    -- from any reader that stands between two calls
    induction calls generalizing r with
    | nil => exact hr
    | cons c calls ih =>
      obtain ⟨k, hk⟩ := hr
      obtain ⟨k', -, hk'⟩ := hk.call c
      exact ih _ ⟨k', hk'⟩
  exact run _ ⟨0, at_ofSource source⟩

/-- **A reader has no memory of its history**: behind any calls, both counters
are at zero and the window shows two neighbouring tokens of the source.  The
next call moves the window on or leaves it where it is, adds to the errors at
their end, and comes to the same as with a reader that has just been made of
any source which gives the same tokens from the current one on. -/
theorem run_afterCalls (source : TokenSource) (calls : List Call) (c : Call) :
    let before := (ofSource source).afterCalls calls
    let o := c.action.run before
    (∃ k, At source k before) ∧ ∀ k, At source k before → ∃ k' ≥ k, ∃ found,
      At source k' o.2 ∧ o.2.errors = before.errors ++ found ∧
        ∀ other : TokenSource, other.stream = (source.skip k).stream →
          let fresh := c.action.run (ofSource other)
          fresh.1 = o.1 ∧ fresh.2.errors = found ∧
            fresh.2.window.current = o.2.window.current ∧
            fresh.2.window.peek = o.2.window.peek ∧
            fresh.2.window.source.stream = o.2.window.source.stream := by
  intro before o
  refine ⟨exists_at_afterCalls source calls, fun k hk => ?_⟩
  -- the same parser runs on the same stream, here and in the other reader
  obtain ⟨hvalue, hcarried⟩ := call_follows c hk.shows hk.depth hk.blockDepth
  obtain ⟨k', hle, hk'⟩ := hk.call c
  refine ⟨k', hle, _, hk', hcarried.errors, fun other hother => ?_⟩
  obtain ⟨hvalue', hcarried'⟩ :=
    call_follows (r := ofSource other) c (Window.shows_ofSource other) rfl rfl
  rw [hother] at hvalue' hcarried'
  exact ⟨hvalue'.trans hvalue.symm, hcarried'.errors,
    hcarried'.shows.current.trans hcarried.shows.current.symm,
    hcarried'.shows.peek.trans hcarried.shows.peek.symm,
    hcarried'.shows.source.trans hcarried.shows.source.symm⟩

/-- An expression breaks off in a function in brackets, where two statements
could not be read.  A few tokens further on, the rest is read as if it were a
source of its own. -/
theorem run_afterCalls_example :
    let source := TokenSource.text (.ofSource "shell" "(fn() { let = 1; ((2 } x) + y; z")
    let calls : List Call := [.expression .lowest, .expect .identifier, .advance, .advance]
    let before := (ofSource source).afterCalls calls
    let o := Call.program.action.run before
    let other := TokenSource.buffer (.ofTokens "shell" (source.skip 15).stream.toList)
    let fresh := Call.program.action.run (ofSource other)
    At source 15 before ∧ before.errors.length = 2 ∧
      other.stream = (source.skip 15).stream ∧ fresh.1 = o.1 ∧ fresh.2.errors.length = 1 ∧
      o.2.errors = before.errors ++ fresh.2.errors := by
  intro source calls before o other fresh
  have hat : At source 15 before :=
    ⟨by decide +kernel, by decide +kernel, by decide +kernel⟩
  have hother : other.stream = (source.skip 15).stream :=
    (TokenBuffer.stream_ofTokens "shell" _).trans (TokenStream.ofTokens_toList "shell" _)
  obtain ⟨k', -, found, -, herrors, h⟩ := (run_afterCalls source calls .program).2 15 hat
  obtain ⟨hvalue, hfound, -⟩ := h other hother
  exact ⟨hat, by decide +kernel, hother, hvalue, by decide +kernel, hfound ▸ herrors⟩

end Reader

end LetFn
