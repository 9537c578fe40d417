/-
LetFn/Proofs/Passing.lean

How a run goes on behind a part of its tokens.

`Passes m n p s q P` is said of a part that needs `m` levels of nesting, where
`n` are to spare.  If they suffice, the run of `p` on `s` comes out like the
run of `q` on some stream of which `P` holds: with the same value, at the
same place and with the same errors.  Otherwise the run reports that the
nesting is too deep.

With `pure a` for `q` this says that `p` reads `a`; with the loop over the
links of an expression it says that a first part of the expression has been
read.  The laws follow the ways to put parsers together (`Passes.bind`,
`passes_foldPeek`, `Passes.statements`), as those of readings do.
-/
import LetFn.Proofs.Reading

namespace LetFn

namespace Parser

variable {α β : Type}
variable {p : Parser α} {f : α → Parser β} {a : α}
variable {s t : TokenStream}

/-! ### One parser after another -/

theorem ext_run {p q : Parser α} (h : ∀ s, p.run s = q.run s) : p = q := by
  cases p
  cases q
  congr
  funext s
  exact h s

instance : LawfulMonad Parser := by
  refine LawfulMonad.mk' Parser ?_ ?_ ?_
  · intro α p
    apply ext_run
    intro s
    show after (p.run s) _ = _
    rcases p.run s with ⟨e | a, t, events⟩
    · rfl
    · simp
  · intro α β a f
    apply ext_run
    intro s
    simp
  · intro α β γ p f g
    apply ext_run
    intro s
    rw [run_bind, run_bind, run_bind]
    rcases p.run s with ⟨e | a, t, events⟩
    · rfl
    · rw [after_ok, after_ok, run_bind]
      rcases (f a).run t with ⟨e | b, u, later⟩
      · rfl
      · simp

/-! ### What matters of a run -/

/-- What matters of a run: its value, where it stops, and its errors. -/
def outline (p : Parser α) (s : TokenStream) :
    Except Diagnostic α × TokenStream × List Diagnostic :=
  ((p.run s).value, (p.run s).rest, errorsOf (p.run s).events)

theorem outline_eq_iff : p.outline s = (.ok a, t, []) ↔ p.Reads false s a t := by
  simp [outline, Reads]

theorem outline_pure : (pure a : Parser α).outline s = (.ok a, s, []) := rfl

/-- A run of two parsers, one after the other, depends on what matters of the first one. -/
theorem outline_bind : (p >>= f).outline s =
    match p.outline s with
    | (.error e, t, errors) => (.error e, t, errors)
    | (.ok a, t, errors) => ((f a).outline t).map id (·.map id (errors ++ ·)) := by
  unfold outline
  rw [run_bind]
  rcases p.run s with ⟨e | a, t, events⟩
  · rfl
  · rw [after_ok]
    show (_, _, errorsOf (events ++ _)) = _
    rw [errorsOf_append]
    rfl

theorem outline_bind_congr {q : Parser α} (h : p.outline s = q.outline t) :
    (p >>= f).outline s = (q >>= f).outline t := by
  rw [outline_bind, outline_bind, h]

/-- Behind a part that is read without errors, a run is the run of what follows. -/
theorem outline_bind_of_outline (h : p.outline s = (pure a : Parser α).outline t) :
    (p >>= f).outline s = (f a).outline t := by
  rw [outline_bind, h, outline_pure]
  rfl

/-- The run reports that the nesting is too deep: as its failure, or among its errors. -/
def Overflows (p : Parser α) (s : TokenStream) : Prop :=
  ∃ d : Diagnostic, d.cause = .tooDeep maxNesting ∧
    ((p.outline s).1 = .error d ∨ d ∈ (p.outline s).2.2)

theorem overflows_congr {q : Parser α} (h : p.outline s = q.outline t) :
    p.Overflows s ↔ q.Overflows t := by
  rw [Overflows, Overflows, h]

theorem Overflows.bind (h : p.Overflows s) : (p >>= f).Overflows s := by
  obtain ⟨d, hd, h⟩ := h
  refine ⟨d, hd, ?_⟩
  rw [outline_bind]
  split
  · -- the run ends with a failure, which may be the report itself
    next e t errors hp =>
    rw [hp] at h
    rcases h with h | h
    · cases h
      exact .inl rfl
    · exact .inr h
  · -- the run gives a value, so the report is among its errors
    next a t errors hp =>
    rw [hp] at h
    rcases h with h | h
    · cases h
    · exact .inr (List.mem_append_left _ h)

/-! ### Passing -/

/-- A part that needs `m` levels of `n` to spare is run by `p` on `s`: the
rest is the run of `q` on a stream of which `P` holds, or `p` overflows. -/
def Passes (m n : Nat) (p : Parser α) (s : TokenStream) (q : Parser α)
    (P : TokenStream → Prop) : Prop :=
  (m ≤ n ∧ ∃ t, P t ∧ p.outline s = q.outline t) ∨ (n < m ∧ p.Overflows s)

section Laws

variable {m k n l : Nat}
variable {q : Parser α} {g : β → Parser α} {b : β}
variable {P Q : TokenStream → Prop}

theorem Passes.refl (h : P s) (hm : m ≤ n) : Passes m n p s p P :=
  .inl ⟨hm, s, h, rfl⟩

theorem Passes.imp (h : Passes m n p s q P) (hP : ∀ t, P t → Q t) : Passes m n p s q Q := by
  rcases h with ⟨hm, t, ht, h⟩ | h
  · exact .inl ⟨hm, t, hP t ht, h⟩
  · exact .inr h

/-- Only the comparison of the levels matters. -/
theorem Passes.levels (h : Passes m n p s q P) (hm : m ≤ n ↔ k ≤ l) :
    Passes k l p s q P := by
  rcases h with ⟨hle, h⟩ | ⟨hlt, h⟩
  · exact .inl ⟨hm.mp hle, h⟩
  · exact .inr ⟨Nat.lt_of_not_le (mt hm.mpr (Nat.not_le_of_lt hlt)), h⟩

/-- A run that comes out like another one passes as that one does. -/
theorem passes_congr {p' : Parser α} (h : p.outline s = p'.outline t) :
    Passes m n p s q P ↔ Passes m n p' t q P := by
  rw [Passes, Passes, h, overflows_congr h]

theorem passes_current_bind {g : Token → Parser α} :
    Passes m n (current >>= g) s q P ↔ Passes m n (g s.current) s q P :=
  passes_congr rfl

theorem passes_peek_bind {g : Token → Parser α} :
    Passes m n (peek >>= g) s q P ↔ Passes m n (g s.peek) s q P :=
  passes_congr rfl

theorem passes_advance_bind {g : Unit → Parser α} :
    Passes m n (advance >>= g) s q P ↔ Passes m n (g ()) s.advance q P :=
  passes_congr rfl

theorem passes_announce_bind {first : Token} {g : Unit → Parser α} :
    Passes m n (announce first >>= g) s q P ↔ Passes m n (g ()) s q P :=
  passes_congr rfl

theorem passes_expect_bind {kind : Kind} {g : Token → Parser α} (hk : s.peek.kind = kind) :
    Passes m n (expect kind >>= g) s q P ↔ Passes m n (g s.peek) s.advance q P := by
  refine passes_congr (outline_bind_of_outline ?_)
  -- the token is there, so expecting it is moving on
  rw [outline_pure, outline_eq_iff, expect, reads_peek_bind, if_pos hk, reads_advance_bind]
  exact reads_pure.mpr ⟨rfl, rfl⟩

theorem passes_accept_bind {kind : Kind} {g : Unit → Parser α} :
    Passes m n (accept kind >>= g) s q P ↔
      Passes m n (g ()) (if s.peek.kind = kind then s.advance else s) q P := by
  refine passes_congr (outline_bind_of_outline ?_)
  rw [outline_pure, outline_eq_iff, accept, reads_peek_bind]
  split
  · exact reads_advance.mpr rfl
  · exact reads_pure.mpr ⟨rfl, rfl⟩

/-- One part after another. -/
theorem Passes.trans {q' : Parser α} (h : Passes m n p s q P)
    (h' : ∀ t, P t → Passes k n q t q' Q) : Passes (max m k) n p s q' Q := by
  -- enough levels for the first part: what is left decides for the second
  rcases h with ⟨hm, t, ht, h⟩ | ⟨hm, h⟩
  · exact (passes_congr h).mpr ((h' t ht).levels (by omega))
  · exact .inr ⟨by omega, h⟩

/-- Behind a value that is read, what is done with it is left to do. -/
theorem Passes.next {p : Parser β} (h : Passes m n p s (pure b) P) :
    Passes m n (p >>= g) s (g b) P := by
  rcases h with ⟨hm, t, ht, h⟩ | ⟨hm, h⟩
  · exact .inl ⟨hm, t, ht, outline_bind_of_outline h⟩
  · exact .inr ⟨hm, h.bind⟩

/-- A value that is read, and what is done with it. -/
theorem Passes.bind {p : Parser β} (h : Passes m n p s (pure b) P)
    (h' : ∀ t, P t → Passes k n (g b) t q Q) : Passes (max m k) n (p >>= g) s q Q :=
  h.next.trans h'

/-- What is done with the value needs no levels of its own. -/
theorem Passes.last {p : Parser β} (h : Passes m n p s (pure b) P)
    (h' : ∀ t, P t → Passes 0 n (g b) t q Q) : Passes m n (p >>= g) s q Q :=
  (h.bind h').levels (by omega)

/-- A loop that is not at its end moves on, takes a step and goes on. -/
theorem passes_foldPeek {more : Kind → Bool} {stops : more .eof = false} {step : α → Parser α}
    {g : α → Parser β} {q : Parser β} (h : more s.peek.kind) :
    Passes m n (foldPeek more stops step a >>= g) s q P ↔
      Passes m n (step a >>= fun b => foldPeek more stops step b >>= g) s.advance q P := by
  rw [← bind_assoc, ← passes_advance_bind (g := fun _ => _), ← bind_assoc, ← bind_assoc]
  refine passes_congr (outline_bind_congr ?_)
  unfold outline
  rw [run_foldPeek, if_pos h]
  rfl

end Laws

/-! ### Sequences of statements -/

section Statements

variable {inner : Nested} {inBlock : Bool} {found : Option ParsedStmt} {ss : List ParsedStmt}

theorem outline_statements_nil (h : endsSequence inBlock s.current.kind) :
    (statements inner inBlock).outline s = (pure [] : Parser (List ParsedStmt)).outline s := by
  unfold outline
  rw [statements, run_always, runStatements_of_ends h]
  rfl

theorem outline_statements_cons (hs : ¬ endsSequence inBlock s.current.kind)
    (h : (statement inner).Reads false s found t) :
    (statements inner inBlock).outline s =
      (statements inner inBlock >>= fun ss => pure (found.toList ++ ss)).outline t.advance := by
  obtain ⟨hv, rfl, he⟩ := h
  rw [outline_bind]
  unfold outline
  rw [statements, run_always, run_always, runStatements_of_ok hs hv]
  simp [he rfl]

theorem Overflows.statements (hs : ¬ endsSequence inBlock s.current.kind)
    (h : (statement inner).Overflows s) : (statements inner inBlock).Overflows s := by
  obtain ⟨d, hd, h⟩ := h
  refine ⟨d, hd, .inr ?_⟩
  show d ∈ errorsOf (runStatements inner inBlock s).events
  rw [runStatements, dif_neg hs]
  unfold outline at h
  rcases hrun : (statement inner).run s with ⟨e | found, t, events⟩
  · -- the failure of the statement is an event of the sequence
    have hmem : e = d ∨ d ∈ errorsOf events := by simpa [hrun] using h
    dsimp only
    split
    · rcases hmem with rfl | hmem
      · simp
      · simp [hmem]
    · rcases hmem with rfl | hmem
      · simp
      · simp [hmem]
  · -- a statement that is read keeps its errors
    have hmem : d ∈ errorsOf events := by simpa [hrun] using h
    simp [hmem]

theorem Passes.statements {m k n : Nat} {P Q : TokenStream → Prop}
    (hs : ¬ endsSequence inBlock s.current.kind)
    (h : Passes m n (statement inner) s (pure found) P)
    (h' : ∀ t, P t → Passes k n (statements inner inBlock) t.advance (pure ss) Q) :
    Passes (max m k) n (statements inner inBlock) s (pure (found.toList ++ ss)) Q := by
  -- the first statement is read, or it already nests too deep
  rcases h with ⟨hm, t, ht, h⟩ | ⟨hm, h⟩
  · rw [outline_pure, outline_eq_iff] at h
    apply (passes_congr (outline_statements_cons hs h)).mpr
    exact (h' t ht).next.levels (by omega)
  · exact .inr ⟨by omega, h.statements hs⟩

end Statements

end Parser

end LetFn
