/-
LetFn/Proofs/Reading.lean

What it means that a parser reads something.

`p.Reads lax s a t` says that `p`, run on the stream `s`, succeeds with the
value `a` and stops at `t`; unless the reading is `lax`, there is also no
error among its events.  Blocks keep the errors of their statements to
themselves, so that a lax reading is all that success alone promises.

Each way to put parsers together has a law that takes a reading apart
(`reads_bind`, `reads_foldPeek`), and the steps that cannot fail have laws of
their own before another parser.

`s.Covers ts t` says that `ts` are the tokens from the current one of `s` up
to and including the current one of `t`, as parsers start on the first token
of what they read and stop on the last one.
-/
import LetFn.Parser.Nesting

namespace LetFn

variable {α β : Type}
variable {lax : Bool}
variable {s t u : TokenStream}

/-! ### Readings -/

namespace Parser

/-- The parser reads `a` from `s` and stops at `t`; without errors on the way,
unless the reading is lax. -/
def Reads (lax : Bool) (p : Parser α) (s : TokenStream) (a : α) (t : TokenStream) : Prop :=
  (p.run s).value = .ok a ∧ (p.run s).rest = t ∧ (lax = false → errorsOf (p.run s).events = [])

variable {p : Parser α} {f : α → Parser β} {a : α} {b : β}

@[simp] theorem reads_pure {c : α} : (pure a : Parser α).Reads lax s c t ↔ c = a ∧ t = s := by
  simp [Reads, eq_comm]

theorem reads_bind :
    (p >>= f).Reads lax s b t ↔ ∃ a u, p.Reads lax s a u ∧ (f a).Reads lax u b t := by
  unfold Reads
  rw [run_bind]
  rcases h : p.run s with ⟨e | a, u, events⟩
  · simp
  · simp only [after_ok, errorsOf_append, List.append_eq_nil_iff, Except.ok.injEq]
    constructor
    · rintro ⟨hv, hr, he⟩
      exact ⟨a, u, ⟨rfl, rfl, fun hl => (he hl).1⟩, hv, hr, fun hl => (he hl).2⟩
    · rintro ⟨_, _, ⟨rfl, rfl, h₁⟩, hv, hr, h₂⟩
      exact ⟨hv, hr, fun hl => ⟨h₁ hl, h₂ hl⟩⟩

@[simp] theorem not_reads_fail {error : Diagnostic} :
    ¬ (fail error : Parser α).Reads lax s a t := by
  simp [Reads]

theorem reads_current {c : Token} : current.Reads lax s c t ↔ c = s.current ∧ t = s := by
  simp [Reads, eq_comm]

theorem reads_peek {c : Token} : peek.Reads lax s c t ↔ c = s.peek ∧ t = s := by
  simp [Reads, eq_comm]

theorem reads_advance {c : Unit} : advance.Reads lax s c t ↔ t = s.advance := by
  simp [Reads, eq_comm]

/-! The steps that cannot fail have laws of their own before another parser. -/

theorem reads_current_bind {f : Token → Parser β} :
    (current >>= f).Reads lax s b t ↔ (f s.current).Reads lax s b t := by
  simp [reads_bind, reads_current, and_assoc]

theorem reads_peek_bind {f : Token → Parser β} :
    (peek >>= f).Reads lax s b t ↔ (f s.peek).Reads lax s b t := by
  simp [reads_bind, reads_peek, and_assoc]

theorem reads_advance_bind {f : Unit → Parser β} :
    (advance >>= f).Reads lax s b t ↔ (f ()).Reads lax s.advance b t := by
  simp only [reads_bind, reads_advance, exists_eq_left]
  exact ⟨fun ⟨(), h⟩ => h, fun h => ⟨(), h⟩⟩

theorem reads_announce_bind {first : Token} {f : Unit → Parser β} :
    (announce first >>= f).Reads lax s b t ↔ (f ()).Reads lax s b t := by
  have h {c : Unit} {u : TokenStream} : (announce first).Reads lax s c u ↔ u = s := by
    simp [Reads, eq_comm]
  simp only [reads_bind, h, exists_eq_left]
  exact ⟨fun ⟨(), h⟩ => h, fun h => ⟨(), h⟩⟩

theorem reads_expect_bind {kind : Kind} {f : Token → Parser β} :
    (expect kind >>= f).Reads lax s b t ↔
      s.peek.kind = kind ∧ (f s.peek).Reads lax s.advance b t := by
  -- what expecting the token reads by itself; the rest is the law of `bind`
  have h {c : Token} {u : TokenStream} :
      (expect kind).Reads lax s c u ↔ s.peek.kind = kind ∧ c = s.peek ∧ u = s.advance := by
    unfold expect
    rw [reads_peek_bind]
    split
    · next hk => simp [hk, reads_advance_bind]
    · next hk => simp [hk]
  simp [reads_bind, h, and_assoc]

theorem reads_accept_bind {kind : Kind} {f : Unit → Parser β} :
    (accept kind >>= f).Reads lax s b t ↔
      (f ()).Reads lax (if s.peek.kind = kind then s.advance else s) b t := by
  have h {c : Unit} {u : TokenStream} :
      (accept kind).Reads lax s c u ↔ u = if s.peek.kind = kind then s.advance else s := by
    unfold accept
    rw [reads_peek_bind]
    split
    · exact reads_advance
    · simp
  simp only [reads_bind, h, exists_eq_left]
  exact ⟨fun ⟨(), h⟩ => h, fun h => ⟨(), h⟩⟩

/-! ### Loops -/

variable {more : Kind → Bool} {stops : more .eof = false} {step : α → Parser α}

/-- A loop has come to its end, or it moves on, takes a step and goes on. -/
theorem reads_foldPeek {b : α} :
    (foldPeek more stops step a).Reads lax s b t ↔
      if more s.peek.kind then
        ∃ c u, (step a).Reads lax s.advance c u ∧ (foldPeek more stops step c).Reads lax u b t
      else b = a ∧ t = s := by
  have hrun := run_foldPeek more stops step a s
  split
  · -- one turn is a step behind the next token, and the rest of the loop
    next h =>
    have hbind : (foldPeek more stops step a).run s =
        ((advance >>= fun _ => step a) >>= foldPeek more stops step).run s := by
      rw [hrun, if_pos h]
      rfl
    rw [Reads, hbind, ← Reads, reads_bind]
    simp only [reads_advance_bind]
  · next h =>
    rw [if_neg h] at hrun
    rw [Reads, hrun, ← run_pure, ← Reads, reads_pure]

/-- What holds before a loop and is kept by its steps holds behind it. -/
theorem Reads.invariant {b : α} {I : α → TokenStream → Prop}
    (h : (foldPeek more stops step a).Reads lax s b t) (h₀ : I a s)
    (hstep : ∀ {a s b t}, I a s → more s.peek.kind → (step a).Reads lax s.advance b t → I b t) :
    I b t ∧ ¬ more t.peek.kind := by
  -- on the turns of the loop: the step leaves a stream that is no longer than before
  induction a, s using foldPeek_induction stops with
  | turn a s ih =>
    rw [reads_foldPeek] at h
    split at h
    · next hmore =>
      obtain ⟨c, u, hc, hb⟩ := h
      have hle : u ≤ s.advance := by
        rw [← hc.2.1]
        exact (step a).rest_le _
      exact ih hmore c u hle hb (hstep h₀ hmore hc)
    · next hmore =>
      -- the loop is over, so nothing has changed
      obtain ⟨rfl, rfl⟩ := h
      exact ⟨h₀, hmore⟩

end Parser

/-! ### Covered tokens -/

/-- The kind of the first of some tokens, and `next` if there is none. -/
def firstKind (next : Kind) : List Token → Kind
  | [] => next
  | t :: _ => t.kind

@[simp] theorem firstKind_nil (next : Kind) : firstKind next [] = next := rfl

@[simp] theorem firstKind_cons (next : Kind) (x : Token) (ts : List Token) :
    firstKind next (x :: ts) = x.kind := rfl

@[simp] theorem firstKind_append (next : Kind) (ts us : List Token) :
    firstKind next (ts ++ us) = firstKind (firstKind next us) ts := by
  cases ts <;> rfl

namespace TokenStream

theorem kind_current (s : TokenStream) : s.current.kind = firstKind .eof s.pending := by
  rcases h : s.pending with - | ⟨x, rest⟩
  · simp [current, h, s.kind_last]
  · simp [current, h]

theorem current_of_pending {x : Token} {rest : List Token} (h : s.pending = x :: rest) :
    s.current = x := by
  simp [current, h]

theorem pending_advance_of_pending {x : Token} {rest : List Token} (h : s.pending = x :: rest) :
    s.advance.pending = rest := by
  simp [h]

theorem pending_eq_cons (h : s.current.kind ≠ .eof) :
    s.pending = s.current :: s.advance.pending := by
  rcases hp : s.pending with - | ⟨x, rest⟩
  · exact absurd (kind_current_eq_eof_iff.mpr hp) h
  · simp [current, hp]

/-- The tokens `ts` are those of `s` up to and including the current one of `t`. -/
structure Covers (s : TokenStream) (ts : List Token) (t : TokenStream) : Prop where
  pending : s.pending = ts ++ t.advance.pending
  getLast? : ts.getLast? = some t.current
  last : t.last = s.last

variable {ts us rest : List Token} {k : Kind}

theorem Covers.single (hk : s.current.kind = k) (hne : (k == .eof) = false) :
    s.Covers [s.current] s :=
  ⟨pending_eq_cons (hk ▸ ne_of_beq_false hne), rfl, rfl⟩

/-- Tokens up to but excluding a current one, and that one as well. -/
theorem Covers.before (h : s.pending = us ++ t.pending) (hl : t.last = s.last)
    (hk : t.current.kind = k) (hne : (k == .eof) = false) : s.Covers (us ++ [t.current]) t where
  pending := by
    rw [h, pending_eq_cons (hk ▸ ne_of_beq_false hne), List.append_assoc, List.singleton_append]
  getLast? := List.getLast?_concat
  last := hl

theorem Covers.append (h : s.Covers ts t) (h' : t.advance.Covers us u) : s.Covers (ts ++ us) u where
  pending := by rw [h.pending, h'.pending, List.append_assoc]
  getLast? := by rw [List.getLast?_append, h'.getLast?, Option.some_or]
  last := h'.last.trans h.last

theorem Covers.cons (h : s.advance.Covers us u) (hk : s.current.kind = k)
    (hne : (k == .eof) = false) : s.Covers (s.current :: us) u :=
  (Covers.single hk hne).append h

/-- Moving on covers the next token as well. -/
theorem Covers.snoc (h : s.Covers ts t) (hk : t.peek.kind = k) (hne : (k == .eof) = false) :
    s.Covers (ts ++ [t.peek]) t.advance :=
  h.append (Covers.single hk hne)

theorem Covers.head? (h : s.Covers ts t) : ts.head? = some s.current := by
  rcases ts with - | ⟨x, ts⟩
  · simpa using h.getLast?
  · rw [current_of_pending h.pending, List.head?_cons]

/-- What stands behind the covered tokens. -/
theorem Covers.pending_advance (h : s.Covers ts t) (hs : s.pending = ts ++ rest) :
    t.advance.pending = rest :=
  List.append_cancel_left (h.pending.symm.trans hs)

theorem Covers.kind_peek (h : s.Covers ts t) (hs : s.pending = ts ++ rest) :
    t.peek.kind = firstKind .eof rest := by
  rw [peek, kind_current, h.pending_advance hs]

end TokenStream

end LetFn
