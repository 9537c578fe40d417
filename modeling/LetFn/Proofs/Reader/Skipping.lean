/-
LetFn/Proofs/Reader/Skipping.lean

Where a reader goes on behind a statement that it could not read.

The rule names the reasons for which skipping may end at a token
(`MayEndSkipping`).  They know the token, the next one, and how many braces
have been opened and not closed since the token at which skipping began
(`openBefore`); they know nothing of how the tokens are gone through, and of
the order in which a reader looks for them.

Skipping ends at the first token for which there is such a reason.  There is
one, because every source comes to its end.  The proof follows the loop: a turn
that goes on has found no reason at the current token, and the rule for the
tokens from the next one on is the rule with the braces that are open there
(`endsAt_advance`).

Main statement: `synchronize_first`.
-/
import LetFn.Proofs.Reader.Ending

namespace LetFn

/-- Skipping may end at a token of the given kind, with so many braces open
before it and a token of kind `next` behind it. -/
inductive MayEndSkipping (inBlock : Bool) (opened : Nat) (kind next : Kind) : Prop
  | eof (h : kind = .eof)
  | semicolon (h : kind = .semicolon) (hopen : opened = 0)
  /-- The enclosing block ends. -/
  | closing (h : kind = .closeCurly) (hopen : opened = 0) (hblock : inBlock)
  /-- A statement begins behind the token. -/
  | keyword (h : next = .kwLet ∨ next = .kwReturn) (hopen : bracesAfter opened kind = 0)
  /-- The enclosing block ends behind the token. -/
  | beforeClosing (h : next = .closeCurly) (hopen : bracesAfter opened kind = 0)
      (hblock : inBlock)

theorem mayEndSkipping_iff {inBlock : Bool} {opened : Nat} {kind next : Kind} :
    MayEndSkipping inBlock opened kind next ↔
      stopsOn inBlock opened kind ∨ stopsBefore inBlock (bracesAfter opened kind) next := by
  constructor
  · rintro (h | ⟨h, hopen⟩ | ⟨h, hopen, hblock⟩ | ⟨h, hopen⟩ | ⟨h, hopen, hblock⟩)
    · exact .inl (by simp [stopsOn, h])
    · exact .inl (by simp [stopsOn, h, hopen])
    · exact .inl (by simp [stopsOn, h, hopen, hblock])
    · exact .inr (by rcases h with h | h <;> simp [stopsBefore, h, hopen])
    · exact .inr (by simp [stopsBefore, h, hopen, hblock])
  · rintro (h | h)
    · simp only [stopsOn, Bool.or_eq_true, Bool.and_eq_true, decide_eq_true_eq] at h
      rcases h with h | ⟨hopen, h | ⟨hblock, h⟩⟩
      · exact .eof h
      · exact .semicolon h hopen
      · exact .closing h hopen hblock
    · simp only [stopsBefore, Bool.or_eq_true, Bool.and_eq_true, decide_eq_true_eq] at h
      obtain ⟨hopen, (h | h) | ⟨hblock, h⟩⟩ := h
      · exact .keyword (.inl h) hopen
      · exact .keyword (.inr h) hopen
      · exact .beforeClosing h hopen hblock

namespace Reader

variable {depth k : Nat}
variable {r : Reader} {s : TokenStream}

/-! ### The tokens ahead -/

/-- The kind of the token `k` steps on. -/
def kindAt (r : Reader) (k : Nat) : Kind := (r.window.move k).current.kind

/-- How many braces are open before the token `k` steps on, of which `depth` were
open before the current one.  A closing brace without a partner changes nothing. -/
def openBefore (depth : Nat) (r : Reader) : Nat → Nat
  | 0 => depth
  | k + 1 => bracesAfter (openBefore depth r k) (r.kindAt k)

/-- Skipping may end at the token `k` steps on. -/
def EndsAt (depth : Nat) (r : Reader) (k : Nat) : Prop :=
  MayEndSkipping r.inBlock (openBefore depth r k) (r.kindAt k) (r.kindAt (k + 1))

theorem kindAt_advance (r : Reader) (k : Nat) : r.advance.kindAt k = r.kindAt (k + 1) :=
  congrArg (·.current.kind) (Window.move_advance k r.window)

/-- The tokens ahead are those of the stream that is read, with its last one
again and again. -/
theorem kindAt_of_shows (h : r.window.Shows s) (k : Nat) :
    r.kindAt k = (s.pending[k]?.getD s.last).kind := by
  induction k generalizing r s with
  | zero =>
    rw [← List.head?_eq_getElem?]
    exact congrArg Token.kind h.current
  | succ k ih =>
    rw [← kindAt_advance, ih (s := s.advance) h.advance, TokenStream.pending_advance,
      TokenStream.last_advance, List.getElem?_tail]

theorem openBefore_advance (depth : Nat) (r : Reader) (k : Nat) :
    openBefore (bracesAfter depth (r.kindAt 0)) r.advance k = openBefore depth r (k + 1) := by
  induction k with
  | zero => rfl
  | succ k ih =>
    rw [openBefore, ih, kindAt_advance]
    rfl

theorem endsAt_advance (depth : Nat) (r : Reader) (k : Nat) :
    EndsAt (bracesAfter depth (r.kindAt 0)) r.advance k ↔ EndsAt depth r (k + 1) := by
  rw [EndsAt, openBefore_advance, kindAt_advance, kindAt_advance]
  rfl

/-! ### Skipping -/

/-- The token `k` steps on is the closing brace of the enclosing block. -/
def ClosesAt (depth : Nat) (r : Reader) (k : Nat) : Prop :=
  r.kindAt k = .closeCurly ∧ openBefore depth r k = 0 ∧ r.inBlock

instance : Decidable (ClosesAt depth r k) := inferInstanceAs (Decidable (_ ∧ _ ∧ _))

theorem closesAt_zero_iff :
    ClosesAt depth r 0 ↔ stopsOn r.inBlock depth (r.kindAt 0) ∧ r.kindAt 0 = .closeCurly := by
  constructor
  · rintro ⟨hkind, hopen : depth = 0, hblock⟩
    exact ⟨by simp [stopsOn, hkind, hopen, hblock], hkind⟩
  · rintro ⟨hstop, hkind⟩
    rw [hkind] at hstop
    have hclosing : depth = 0 ∧ r.inBlock := by simpa [stopsOn] using hstop
    exact ⟨hkind, hclosing⟩

theorem closesAt_advance (depth : Nat) (r : Reader) (k : Nat) :
    ClosesAt (bracesAfter depth (r.kindAt 0)) r.advance k ↔ ClosesAt depth r (k + 1) := by
  rw [ClosesAt, openBefore_advance, kindAt_advance]
  rfl

/-- Skipping ends at the first token at which it may, and tells whether that is
the closing brace of the enclosing block. -/
theorem exists_endsAt (depth : Nat) (r : Reader) :
    ∃ k, EndsAt depth r k ∧ (∀ j < k, ¬ EndsAt depth r j) ∧
      r.synchronize depth =
        (decide (ClosesAt depth r k), { r with window := r.window.move k }) := by
  have none_before_zero {P : Nat → Prop} : ∀ j < 0, P j := fun j hj => absurd hj (Nat.not_lt_zero j)
  fun_induction synchronize depth r with
  -- on the token itself
  | case1 depth r closed h =>
    obtain ⟨hstop, rfl⟩ := skipped_eq_inl_iff.mp h
    refine ⟨0, mayEndSkipping_iff.mpr (.inl hstop), none_before_zero, Prod.ext ?_ rfl⟩
    exact decide_eq_decide.mpr ⟨fun hc => closesAt_zero_iff.mpr ⟨hstop, hc⟩, And.left⟩
  -- before the next token
  | case2 depth r later h next hnext =>
    obtain ⟨hstop, rfl⟩ := skipped_eq_inr_iff.mp h
    rw [endsSkipping_eq] at hnext
    refine ⟨0, mayEndSkipping_iff.mpr (.inr hnext), none_before_zero, Prod.ext ?_ rfl⟩
    exact (decide_eq_false fun hc => hstop (closesAt_zero_iff.mp hc).1).symm
  -- not here: all that is said of the next token holds one step further on
  | case3 depth r later h next hnext ih =>
    obtain ⟨hstop, rfl⟩ := skipped_eq_inr_iff.mp h
    rw [endsSkipping_eq] at hnext
    obtain ⟨k, hends, hfirst, hrun⟩ := ih
    refine ⟨k + 1, (endsAt_advance depth r k).mp hends, fun j hj => ?_, ?_⟩
    · rcases j with - | j
      · exact fun hends => (mayEndSkipping_iff.mp hends).elim hstop hnext
      · exact fun hends =>
          hfirst j (Nat.lt_of_succ_lt_succ hj) ((endsAt_advance depth r j).mpr hends)
    · rw [hrun]
      refine Prod.ext (decide_eq_decide.mpr (closesAt_advance depth r k)) ?_
      show { r with window := r.window.advance.move k } = { r with window := _ }
      rw [Window.move_advance]
      rfl

/-- **Skipping ends where the rule says.**  The tokens ahead of a reader are
those of its stream, with the end again and again.  Skipping moves on to the first
of them, from the current one on, at which it may end, and tells whether that is
the closing brace of the enclosing block.  Nothing but the window has changed
then: neither the errors nor one of the counters.  The plain loop, which knows of
no reason to end, comes to the same. -/
theorem synchronize_first (r : Reader) :
    (∀ s, r.window.Shows s → ∀ k, r.kindAt k = (s.pending[k]?.getD s.last).kind) ∧
    ∃ k, EndsAt 0 r k ∧ (∀ j < k, ¬ EndsAt 0 r j) ∧
      let closed := decide (ClosesAt 0 r k)
      let there : Reader := { r with window := r.window.move k }
      r.synchronize 0 = (closed, there) ∧
        (Routine.course (.synchronize 0)).run.run r = some (.ok closed, there) := by
  refine ⟨fun s h => kindAt_of_shows h, ?_⟩
  obtain ⟨k, hends, hfirst, hrun⟩ := exists_endsAt 0 r
  refine ⟨k, hends, hfirst, hrun, ?_⟩
  rw [run_synchronize, hrun]

end Reader

end LetFn
