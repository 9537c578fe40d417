/-
LetFn/Reader/Basic.lean

Readers.  A reader is what parsing looks like from the inside: it pulls
tokens from a source, keeps two of them in view, collects errors, and counts
how deep it is in expressions and blocks.  All of that changes as it reads.

What a reader can be told to do is an action.  An action ends with a value
or with a diagnostic, and leaves the reader somewhere further on: its window
never moves back, and the type of actions says so (`forward`).  The loops
over tokens end for that reason.

The parsers of `LetFn.Parser` say the same thing without any state: there,
the counters are parameters.  `LetFn.Proofs.Reader` compares the two.
-/
import LetFn.Parser.Nesting
import LetFn.Token.Source

namespace LetFn

/-! ### Windows -/

/-- Two neighbouring tokens of a source, and the source behind them. -/
structure Window where
  source : TokenSource
  /-- The token to be read now. -/
  current : Token
  /-- The token behind the current one. -/
  peek : Token
  deriving DecidableEq

namespace Window

variable {v w : Window}

/-- The first two tokens of a source. -/
def ofSource (source : TokenSource) : Window :=
  ⟨source.next.2.next.2, source.next.1, source.next.2.next.1⟩

/-- Moves on by one token. -/
def advance (w : Window) : Window := ⟨w.source.next.2, w.peek, w.source.next.1⟩

/-- Moves on by so many tokens. -/
def move : Nat → Window → Window
  | 0, w => w
  | n + 1, w => (move n w).advance

theorem move_advance (n : Nat) (w : Window) : move n w.advance = (move n w).advance := by
  induction n with
  | zero => rfl
  | succ n ih => rw [move, ih, move]

theorem move_move (m n : Nat) (w : Window) : move m (move n w) = move (n + m) w := by
  induction m with
  | zero => rfl
  | succ m ih => rw [move, ih]; rfl

/-- Moving on and taking tokens from the source beforehand are the same. -/
theorem move_ofSource (n : Nat) (source : TokenSource) :
    move n (ofSource source) = ofSource (source.skip n) := by
  induction n with
  | zero => rfl
  | succ n ih => rw [move, ih]; rfl

/-! ### Windows further on -/

/-- Further on, or not moved at all. -/
instance : LE Window := ⟨fun v w => ∃ n, v = move n w⟩

theorem le_refl (w : Window) : w ≤ w := ⟨0, rfl⟩

theorem le_trans {u v w : Window} (h : u ≤ v) (h' : v ≤ w) : u ≤ w := by
  obtain ⟨m, rfl⟩ := h
  obtain ⟨n, rfl⟩ := h'
  exact ⟨n + m, move_move m n w⟩

theorem advance_le (w : Window) : w.advance ≤ w := ⟨1, rfl⟩

theorem advance_le_advance (h : v ≤ w) : v.advance ≤ w.advance := by
  obtain ⟨n, rfl⟩ := h
  exact ⟨n, (move_advance n w).symm⟩

/-! ### What is left of a source -/

/-- A token counts unless it is the end. -/
def count (t : Token) : Nat := if t.kind = .eof then 0 else 1

/-- How many tokens there are before the end. -/
def remaining (w : Window) : Nat :=
  count w.current + count w.peek + w.source.stream.pending.length

/-- Taking a token from a source. -/
theorem count_next (source : TokenSource) :
    count source.next.1 + source.next.2.stream.pending.length = source.stream.pending.length := by
  rw [TokenSource.fst_next, TokenSource.stream_next, TokenStream.pending_advance,
    List.length_tail]
  unfold count
  split
  · next h => rw [TokenStream.kind_current_eq_eof_iff.mp h]; rfl
  · next h =>
    have := TokenStream.length_pending_pos h
    omega

theorem remaining_advance (w : Window) :
    w.advance.remaining + count w.current = w.remaining := by
  have hnext := count_next w.source
  show count w.peek + count w.source.next.1 + w.source.next.2.stream.pending.length +
    count w.current = _
  unfold remaining
  omega

theorem remaining_le_of_le (h : v ≤ w) : v.remaining ≤ w.remaining := by
  obtain ⟨n, rfl⟩ := h
  induction n with
  | zero => exact Nat.le_refl _
  | succ n ih => exact Nat.le_trans (Nat.le_of_add_right_le (Nat.le_of_eq (remaining_advance _))) ih

/-- Before the end, a further step leaves less, wherever it is taken from. -/
theorem remaining_advance_lt (h : v ≤ w) (hw : w.current.kind ≠ .eof) :
    v.advance.remaining < w.remaining := by
  have hle := remaining_le_of_le (advance_le_advance h)
  have hstep := remaining_advance w
  rw [count, if_neg hw] at hstep
  omega

end Window

/-! ### Readers -/

/-- The state of a reader. -/
structure Reader where
  window : Window
  /-- What was wrong so far, in order. -/
  errors : List Diagnostic := []
  /-- How many expressions and blocks are being read. -/
  depth : Nat := 0
  /-- How many blocks there are around what is being read. -/
  blockDepth : Nat := 0

namespace Reader

variable {α β : Type}

/-- A reader at the start of a source. -/
def ofSource (source : TokenSource) : Reader where
  window := .ofSource source

/-- Moves on by one token. -/
def advance (r : Reader) : Reader := { r with window := r.window.advance }

/-- Keeps an error. -/
def record (e : Diagnostic) (r : Reader) : Reader := { r with errors := r.errors ++ [e] }

/-- Is the reader in a block? -/
def inBlock (r : Reader) : Bool := 0 < r.blockDepth

/-! ### Actions -/

/-- What a reader can do. -/
structure Action (α : Type) where
  run : Reader → Except Diagnostic α × Reader
  forward : ∀ r, (run r).2.window ≤ r.window

namespace Action

/-- Goes on with the value of a run, unless the run failed. -/
def after (o : Except Diagnostic α × Reader) (f : α → Action β) : Except Diagnostic β × Reader :=
  match o.1 with
  | .error e => (.error e, o.2)
  | .ok a => (f a).run o.2

theorem forward_after (o : Except Diagnostic α × Reader) (f : α → Action β) :
    (after o f).2.window ≤ o.2.window := by
  unfold after
  split
  · exact Window.le_refl _
  · exact (f _).forward o.2

instance : Monad Action where
  pure a := ⟨fun r => (.ok a, r), fun r => r.window.le_refl⟩
  bind A f := ⟨fun r => after (A.run r) f,
    fun r => Window.le_trans (forward_after (A.run r) f) (A.forward r)⟩

/-- Fails. -/
def fail (e : Diagnostic) : Action α := ⟨fun r => (.error e, r), fun r => r.window.le_refl⟩

/-- The current token. -/
def current : Action Token := ⟨fun r => (.ok r.window.current, r), fun r => r.window.le_refl⟩

/-- The token behind the current one. -/
def peek : Action Token := ⟨fun r => (.ok r.window.peek, r), fun r => r.window.le_refl⟩

/-- Moves on by one token. -/
def advance : Action Unit := ⟨fun r => (.ok (), r.advance), fun r => r.window.advance_le⟩

/-- What an action comes to, be it a value or a failure. -/
def attempt (A : Action α) : Action (Except Diagnostic α) :=
  ⟨fun r => (.ok (A.run r).1, (A.run r).2), A.forward⟩

/-- Ends as an attempt did. -/
def resume : Except Diagnostic α → Action α
  | .ok a => pure a
  | .error e => fail e

/-! ### Counters -/

/-- Fails at the current token, because no level is left. -/
def tooDeep : Action α := do
  let token ← current
  fail ⟨.tooDeep maxNesting, token.span.start⟩

/-- Goes down one level, if there is one. -/
def descend : Action Unit where
  run r := if maxNesting ≤ r.depth then tooDeep.run r else (.ok (), { r with depth := r.depth + 1 })
  forward r := by split <;> exact r.window.le_refl

/-- Comes up one level. -/
def ascend : Action Unit :=
  ⟨fun r => (.ok (), { r with depth := r.depth - 1 }), fun r => r.window.le_refl⟩

/-- Enters a block. -/
def enterBlock : Action Unit :=
  ⟨fun r => (.ok (), { r with blockDepth := r.blockDepth + 1 }), fun r => r.window.le_refl⟩

/-- Leaves a block. -/
def leaveBlock : Action Unit :=
  ⟨fun r => (.ok (), { r with blockDepth := r.blockDepth - 1 }), fun r => r.window.le_refl⟩

/-! ### Looking at the next token -/

/-- Moves on to the next token if it is of the given kind, and fails
without moving if it is not. -/
def expect (kind : Kind) : Action Token := do
  let next ← peek
  if next.kind = kind then
    advance
    current
  else fail ⟨.unexpectedToken kind next.kind, next.span.start⟩

/-- Moves on to the next token if it is of the given kind. -/
def accept (kind : Kind) : Action Unit := do
  let next ← peek
  if next.kind = kind then advance

/-! ### Loops -/

/-- The run of `foldPeek`. -/
def runFold (more : Kind → Bool) (stops : more .eof = false) (step : α → Action α) (a : α)
    (r : Reader) : Except Diagnostic α × Reader :=
  if _more : more r.window.peek.kind then
    let o := (advance >>= fun _ => step a).run r
    match o.1 with
    | .error e => (.error e, o.2)
    | .ok b => runFold more stops step b o.2
  else (.ok a, r)
termination_by r.window.advance.remaining
decreasing_by
  exact Window.remaining_advance_lt ((step a).forward r.advance)
    fun he => by simp [show r.window.peek.kind = .eof from he, stops] at _more

theorem forward_runFold (more : Kind → Bool) (stops : more .eof = false) (step : α → Action α)
    (a : α) (r : Reader) : (runFold more stops step a r).2.window ≤ r.window := by
  fun_induction runFold more stops step a r with
  | case1 a r h o e he => exact Action.forward _ r
  | case2 a r h o b hb ih => exact Window.le_trans ih (Action.forward _ r)
  | case3 a r h => exact r.window.le_refl

/-- As long as the next token is of such a kind, moves on to it and takes a
step from the value so far. -/
def foldPeek (more : Kind → Bool) (stops : more .eof = false) (step : α → Action α) (a : α) :
    Action α :=
  ⟨runFold more stops step a, forward_runFold more stops step a⟩

/-- One item, and another one behind each separator that follows. -/
def separated (separator : Kind) (h : .eof ≠ separator) (item : Action α) : Action (List α) := do
  let first ← item
  let items ← foldPeek (· = separator) (decide_eq_false h)
    (fun before => do return (← item) :: before) [first]
  return items.reverse

end Action

end Reader

end LetFn
