/-
LetFn/Parser/Outcome.lean

What a run of a parser leaves behind: a value, the stream from where it
stopped, and the events on the way.

Events tell the whole course of a run, in order: each token as it comes into
view, each statement that is begun, and each one that could not be read.
The errors of a run are a view of its events, and so is the place where it
stopped (`TokenStream.behind`): every step brings one token into view.
-/
import LetFn.Diagnostic
import LetFn.Token.Stream

namespace LetFn

/-- What can happen in a run. -/
inductive Event where
  /-- A token came into view. -/
  | token (token : Token)
  /-- A statement is about to be read, and this is its first token. -/
  | statement (first : Token)
  /-- A statement could not be read. -/
  | failure (error : Diagnostic)
  deriving DecidableEq, Repr

/-- The diagnostic of an event, if it is a failure. -/
def Event.error? : Event → Option Diagnostic
  | .failure error => some error
  | .token _ | .statement _ => none

/-- The diagnostics of the failures among some events, in order. -/
def errorsOf (events : List Event) : List Diagnostic := events.filterMap Event.error?

@[simp] theorem errorsOf_nil : errorsOf [] = [] := rfl

@[simp] theorem errorsOf_token (t : Token) (events : List Event) :
    errorsOf (.token t :: events) = errorsOf events := rfl

@[simp] theorem errorsOf_statement (first : Token) (events : List Event) :
    errorsOf (.statement first :: events) = errorsOf events := rfl

@[simp] theorem errorsOf_failure (error : Diagnostic) (events : List Event) :
    errorsOf (.failure error :: events) = error :: errorsOf events := rfl

@[simp] theorem errorsOf_append (first later : List Event) :
    errorsOf (first ++ later) = errorsOf first ++ errorsOf later :=
  List.filterMap_append

/-- What happens when a reader moves on: of the two tokens then in view, the
second one is new. -/
def TokenStream.sight (s : TokenStream) : Event := .token s.advance.peek

@[simp] theorem errorsOf_sight (s : TokenStream) (events : List Event) :
    errorsOf (s.sight :: events) = errorsOf events := rfl

/-- Where a reader stands after some events: a token that came into view was
a step, and nothing else is. -/
def TokenStream.behind (s : TokenStream) : List Event → TokenStream
  | [] => s
  | .token _ :: later => s.advance.behind later
  | .statement _ :: later | .failure _ :: later => s.behind later

@[simp] theorem TokenStream.behind_nil (s : TokenStream) : s.behind [] = s := rfl

@[simp] theorem TokenStream.behind_sight (s t : TokenStream) (events : List Event) :
    s.behind (t.sight :: events) = s.advance.behind events := rfl

@[simp] theorem TokenStream.behind_statement (s : TokenStream) (first : Token)
    (events : List Event) : s.behind (.statement first :: events) = s.behind events := rfl

@[simp] theorem TokenStream.behind_failure (s : TokenStream) (error : Diagnostic)
    (events : List Event) : s.behind (.failure error :: events) = s.behind events := rfl

@[simp] theorem TokenStream.behind_append (s : TokenStream) (first later : List Event) :
    s.behind (first ++ later) = (s.behind first).behind later := by
  fun_induction TokenStream.behind s first with
  | case1 s => rfl
  | case2 s t first ih => exact ih
  | case3 s t first ih => exact ih
  | case4 s e first ih => exact ih

/-- Events only lead forward. -/
theorem TokenStream.behind_le (s : TokenStream) (events : List Event) : s.behind events ≤ s := by
  fun_induction TokenStream.behind s events with
  | case1 s => exact s.le_refl
  | case2 s t later ih => exact TokenStream.le_trans ih s.advance_le
  | case3 s t later ih => exact ih
  | case4 s e later ih => exact ih

/-- What a run gives and leaves. -/
structure Outcome (β : Type) where
  value : β
  /-- The stream from where the run stopped. -/
  rest : TokenStream
  /-- What happened, in order. -/
  events : List Event

end LetFn
