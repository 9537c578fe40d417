/-
LetFn/Parser/Recovery.lean

Recovery: where reading goes on after a statement that could not be read.

The tokens from where it failed are skipped up to a place at which a
statement can end.  Braces opened on the way are skipped with all they hold.
Outside of them the statement ends with a `;`, before a `let` or `return`,
and, within a block, before the `}` of that block.
-/
import LetFn.Parser.Outcome

namespace LetFn

/-- How many braces are open behind a token, of `depth` before it.  A
closing brace without a partner changes nothing. -/
def bracesAfter (depth : Nat) (kind : Kind) : Nat :=
  match kind with
  | .openCurly => depth + 1
  | .closeCurly => depth - 1
  | _ => depth

/-- Does skipping end on a token of this kind, with `depth` braces open
before it? -/
def stopsOn (inBlock : Bool) (depth : Nat) (kind : Kind) : Bool :=
  kind = .eof || (depth = 0 && (kind = .semicolon || (inBlock && kind = .closeCurly)))

/-- Does skipping end before a token of this kind, with `depth` braces open? -/
def stopsBefore (inBlock : Bool) (depth : Nat) (kind : Kind) : Bool :=
  depth = 0 && (kind = .kwLet || kind = .kwReturn || (inBlock && kind = .closeCurly))

/-- Skips the rest of a statement, with `depth` braces open.  The value says
whether skipping ended on the closing brace of the enclosing block. -/
def skipStatement (inBlock : Bool) (depth : Nat) (s : TokenStream) : Outcome Bool :=
  if _stop : stopsOn inBlock depth s.current.kind then ⟨s.current.kind = .closeCurly, s, []⟩
  else
    let later := bracesAfter depth s.current.kind
    -- the token looked at here is the one that would become current
    if stopsBefore inBlock later s.peek.kind then ⟨false, s, []⟩
    else
      let o := skipStatement inBlock later s.advance
      ⟨o.value, o.rest, s.sight :: o.events⟩
termination_by s.pending.length
decreasing_by
  exact TokenStream.length_advance_lt_of_le s.le_refl fun he => by simp [he, stopsOn] at _stop

section Turns

variable {inBlock : Bool} {depth : Nat} {s : TokenStream}

theorem skipStatement_of_stopsOn (h : stopsOn inBlock depth s.current.kind) :
    skipStatement inBlock depth s = ⟨s.current.kind = .closeCurly, s, []⟩ := by
  rw [skipStatement, dif_pos h]

theorem skipStatement_of_stopsBefore (h : ¬ stopsOn inBlock depth s.current.kind)
    (h' : stopsBefore inBlock (bracesAfter depth s.current.kind) s.peek.kind) :
    skipStatement inBlock depth s = ⟨false, s, []⟩ := by
  rw [skipStatement, dif_neg h]
  exact if_pos h'

theorem skipStatement_of_goesOn (h : ¬ stopsOn inBlock depth s.current.kind)
    (h' : ¬ stopsBefore inBlock (bracesAfter depth s.current.kind) s.peek.kind) :
    skipStatement inBlock depth s =
      let o := skipStatement inBlock (bracesAfter depth s.current.kind) s.advance
      ⟨o.value, o.rest, s.sight :: o.events⟩ := by
  rw [skipStatement, dif_neg h]
  exact if_neg h'

end Turns

theorem rest_skipStatement (inBlock : Bool) (depth : Nat) (s : TokenStream) :
    (skipStatement inBlock depth s).rest = s.behind (skipStatement inBlock depth s).events := by
  fun_induction skipStatement inBlock depth s with
  | case1 depth s h => rfl
  | case2 depth s h later h' => rfl
  | case3 depth s h later h' o ih => exact ih

theorem rest_skipStatement_le (inBlock : Bool) (depth : Nat) (s : TokenStream) :
    (skipStatement inBlock depth s).rest ≤ s := by
  rw [rest_skipStatement]
  exact s.behind_le _

/-- Where a reader stands behind a failure and what has been skipped there. -/
theorem behind_skipStatement {inBlock : Bool} {depth : Nat} {s t : TokenStream}
    {events : List Event} {e : Diagnostic} (h : t = s.behind events) :
    s.behind (events ++ .failure e :: (skipStatement inBlock depth t).events) =
      (skipStatement inBlock depth t).rest := by
  rw [TokenStream.behind_append, TokenStream.behind_failure, ← h, rest_skipStatement]

/-- Skipping says that it ended on a closing brace where it did. -/
theorem current_of_value_skipStatement {inBlock : Bool} {depth : Nat} {s : TokenStream}
    (h : (skipStatement inBlock depth s).value) :
    (skipStatement inBlock depth s).rest.current.kind = .closeCurly := by
  fun_induction skipStatement inBlock depth s with
  | case1 depth s hstop => exact of_decide_eq_true h
  | case2 depth s hstop later hbefore => cases h
  | case3 depth s hstop later hbefore o ih => exact ih h

/-- Outside of blocks no closing brace ends skipping. -/
theorem value_skipStatement_outside (depth : Nat) (s : TokenStream) :
    (skipStatement false depth s).value = false := by
  fun_induction skipStatement false depth s with
  | case1 depth s hstop =>
    apply decide_eq_false
    intro hc
    rw [hc] at hstop
    simp [stopsOn] at hstop
  | case2 depth s hstop later hbefore => rfl
  | case3 depth s hstop later hbefore o ih => exact ih

/-- Skipping leaves no errors behind. -/
theorem errorsOf_skipStatement (inBlock : Bool) (depth : Nat) (s : TokenStream) :
    errorsOf (skipStatement inBlock depth s).events = [] := by
  fun_induction skipStatement inBlock depth s with
  | case1 depth s h => rfl
  | case2 depth s h later h' => rfl
  | case3 depth s h later h' o ih => exact ih

end LetFn
