/-
LetFn/Parser/Basic.lean

Parsers.  A parser reads from a token stream and succeeds with a value or
fails with a diagnostic.  Either way it leaves the stream where it stopped,
because what is wrong with one statement is no reason not to read the next
one.

A parser tells every step it takes, and its type says so (`rest_eq`): what it
leaves of a stream is what its events lead to.  So a parser only moves
forward (`rest_le`); loops that call parsers end for that reason, and
nothing has to be proved of a parser that is put together from others.

Main statements: `run_bind` tells how two parsers run one after the other,
and `run_foldPeek` how a loop runs.
-/
import LetFn.Parser.Outcome

namespace LetFn

/-! ### Parsers -/

/-- A way to read a value from a token stream. -/
structure Parser (α : Type) where
  run : TokenStream → Outcome (Except Diagnostic α)
  rest_eq : ∀ s, (run s).rest = s.behind (run s).events

namespace Parser

variable {α β : Type}

/-- A parser only moves forward. -/
theorem rest_le (p : Parser α) (s : TokenStream) : (p.run s).rest ≤ s := by
  rw [p.rest_eq s]
  exact s.behind_le _

/-- Reads on with the value of a run, unless the run failed. -/
def after (o : Outcome (Except Diagnostic α)) (f : α → Parser β) :
    Outcome (Except Diagnostic β) :=
  match o.value with
  | .error e => ⟨.error e, o.rest, o.events⟩
  | .ok a =>
    let later := (f a).run o.rest
    ⟨later.value, later.rest, o.events ++ later.events⟩

theorem rest_after {s : TokenStream} {o : Outcome (Except Diagnostic α)}
    (h : o.rest = s.behind o.events) (f : α → Parser β) :
    (after o f).rest = s.behind (after o f).events := by
  unfold after
  split
  · exact h
  · next a _ => rw [TokenStream.behind_append, ← h, (f a).rest_eq o.rest]

/-- A total reader as a parser that never fails. -/
def always (f : TokenStream → Outcome α) (h : ∀ s, (f s).rest = s.behind (f s).events) :
    Parser α where
  run s := ⟨.ok (f s).value, (f s).rest, (f s).events⟩
  rest_eq := h

instance : Monad Parser where
  pure a := ⟨fun s => ⟨.ok a, s, []⟩, fun _ => rfl⟩
  bind p f := ⟨fun s => after (p.run s) f, fun s => rest_after (p.rest_eq s) f⟩

/-- Fails, and reads nothing. -/
def fail (error : Diagnostic) : Parser α :=
  ⟨fun s => ⟨.error error, s, []⟩, fun _ => rfl⟩

/-- The current token. -/
def current : Parser Token := ⟨fun s => ⟨.ok s.current, s, []⟩, fun _ => rfl⟩

/-- The token behind the current one. -/
def peek : Parser Token := ⟨fun s => ⟨.ok s.peek, s, []⟩, fun _ => rfl⟩

/-- Moves on by one token. -/
def advance : Parser Unit := ⟨fun s => ⟨.ok (), s.advance, [s.sight]⟩, fun _ => rfl⟩

/-- Tells that a statement is begun. -/
def announce (first : Token) : Parser Unit :=
  ⟨fun s => ⟨.ok (), s, [.statement first]⟩, fun _ => rfl⟩

@[simp] theorem run_pure (a : α) (s : TokenStream) :
    (pure a : Parser α).run s = ⟨.ok a, s, []⟩ := rfl

@[simp] theorem run_bind (p : Parser α) (f : α → Parser β) (s : TokenStream) :
    (p >>= f).run s = after (p.run s) f := rfl

@[simp] theorem run_fail (error : Diagnostic) (s : TokenStream) :
    (fail error : Parser α).run s = ⟨.error error, s, []⟩ := rfl

@[simp] theorem run_current (s : TokenStream) : current.run s = ⟨.ok s.current, s, []⟩ := rfl

@[simp] theorem run_peek (s : TokenStream) : peek.run s = ⟨.ok s.peek, s, []⟩ := rfl

@[simp] theorem run_advance (s : TokenStream) :
    advance.run s = ⟨.ok (), s.advance, [s.sight]⟩ := rfl

@[simp] theorem run_announce (first : Token) (s : TokenStream) :
    (announce first).run s = ⟨.ok (), s, [.statement first]⟩ := rfl

@[simp] theorem run_always (f : TokenStream → Outcome α)
    (h : ∀ s, (f s).rest = s.behind (f s).events) (s : TokenStream) :
    (always f h).run s = ⟨.ok (f s).value, (f s).rest, (f s).events⟩ := rfl

@[simp] theorem after_error (e : Diagnostic) (s : TokenStream) (events : List Event)
    (f : α → Parser β) : after ⟨.error e, s, events⟩ f = ⟨.error e, s, events⟩ := rfl

@[simp] theorem after_ok (a : α) (s : TokenStream) (events : List Event) (f : α → Parser β) :
    after ⟨.ok a, s, events⟩ f =
      ⟨((f a).run s).value, ((f a).run s).rest, events ++ ((f a).run s).events⟩ := rfl

/-! ### Looking at the next token -/

/-- Moves on to the next token if it is of the given kind, and fails
without moving if it is not. -/
def expect (kind : Kind) : Parser Token := do
  let next ← peek
  if next.kind = kind then
    advance
    return next
  else fail ⟨.unexpectedToken kind next.kind, next.span.start⟩

/-- Moves on to the next token if it is of the given kind. -/
def accept (kind : Kind) : Parser Unit := do
  let next ← peek
  if next.kind = kind then advance

/-! ### Loops -/

/-- The run of `foldPeek`. -/
def runFold (more : Kind → Bool) (stops : more .eof = false) (step : α → Parser α) (a : α)
    (s : TokenStream) : Outcome (Except Diagnostic α) :=
  if _more : more s.peek.kind then
    let o := (advance >>= fun _ => step a).run s
    match o.value with
    | .error e => ⟨.error e, o.rest, o.events⟩
    | .ok b =>
      let later := runFold more stops step b o.rest
      ⟨later.value, later.rest, o.events ++ later.events⟩
  else ⟨.ok a, s, []⟩
termination_by s.pending.length
decreasing_by
  exact Nat.lt_of_le_of_lt (TokenStream.length_le_of_le ((step a).rest_le s.advance))
    (TokenStream.length_advance_lt_of_peek fun he => by simp [he, stops] at _more)

theorem rest_runFold (more : Kind → Bool) (stops : more .eof = false) (step : α → Parser α)
    (a : α) (s : TokenStream) :
    (runFold more stops step a s).rest = s.behind (runFold more stops step a s).events := by
  fun_induction runFold more stops step a s with
  | case1 a s h o e he => exact Parser.rest_eq _ s
  | case2 a s h o b hb later ih =>
    rw [ih, TokenStream.behind_append]
    exact congrArg (TokenStream.behind · later.events) (Parser.rest_eq _ s)
  | case3 a s h => rfl

/-- As long as the next token is of such a kind, moves on to it and takes a
step from the value so far. -/
def foldPeek (more : Kind → Bool) (stops : more .eof = false) (step : α → Parser α) (a : α) :
    Parser α :=
  ⟨runFold more stops step a, rest_runFold more stops step a⟩

theorem run_foldPeek (more : Kind → Bool) (stops : more .eof = false) (step : α → Parser α)
    (a : α) (s : TokenStream) :
    (foldPeek more stops step a).run s =
      if more s.peek.kind then
        after ((advance >>= fun _ => step a).run s) (foldPeek more stops step)
      else ⟨.ok a, s, []⟩ := by
  show runFold more stops step a s = _
  rw [runFold]
  split
  · rfl
  · rfl

/-- Induction along a loop: what holds if it holds wherever the loop can stand
one turn later, holds everywhere, because a turn moves on by a token at least. -/
theorem foldPeek_induction {more : Kind → Bool} (stops : more .eof = false)
    {motive : α → TokenStream → Prop}
    (turn : ∀ a s, (more s.peek.kind → ∀ b t, t ≤ s.advance → motive b t) → motive a s)
    (a : α) (s : TokenStream) : motive a s := by
  induction hn : s.pending.length using Nat.strongRecOn generalizing a s with
  | ind n ih =>
    subst hn
    refine turn a s fun hmore b t hle => ih _ ?_ b t rfl
    have hne : s.peek.kind ≠ .eof := fun he => by simp [he, stops] at hmore
    exact Nat.lt_of_le_of_lt (TokenStream.length_le_of_le hle)
      (TokenStream.length_advance_lt_of_peek hne)

/-- One item, and another one behind each separator that follows. -/
def separated (separator : Kind) (h : separator ≠ .eof) (item : Parser α) : Parser (List α) := do
  let first ← item
  let items ← foldPeek (· = separator) (decide_eq_false h.symm)
    (fun before => do return (← item) :: before) [first]
  return items.reverse

end Parser

end LetFn
