/-
LetFn/Proofs/Boundaries.lean

What a parser can know of the tokens behind a boundary: nothing.

A boundary is a token at which one statement is over and the next one has
not begun, such as a semicolon or a `let`.  Take two sources that begin alike
and then come to a boundary each, behind which they have nothing in common.
A parser that starts before the boundary comes out the same on both of them:
it reads the same thing, or it fails on both and leaves as much of what they
share.  It may be told which token the boundary is, and its diagnostics may
then say so, but it does not get past it.

Braces are the reason why this holds within blocks as well.  The tokens that
the two sources share close every brace that a reader knows to be open
(`Twins`), so that a block is over before the boundary.  A reader may know of
fewer open braces than there are, and that does no harm.

`Agrees x y d p s t Q` says that `p`, run on `s` and on `t` with `d` braces
open, comes out the same in this sense.  There is a law for each way to put
parsers together; `LetFn.Proofs.Boundaries.Steady` goes through the parsers.

Main statements: `skipStatement_twins` for what is skipped in a block,
`Agrees.bind`, and `agrees_foldPeek` for loops.
-/
import LetFn.Proofs.Braces

namespace LetFn

variable {α β : Type}

/-! ### Failures and their places -/

/-- The failures among some events, each with the place where it leaves a
reader who starts from `s`. -/
def failures (s : TokenStream) : List Event → List (TokenStream × Diagnostic)
  | [] => []
  | .token _ :: later => failures s.advance later
  | .statement _ :: later => failures s later
  | .failure e :: later => (s, e) :: failures s later

@[simp] theorem failures_nil (s : TokenStream) : failures s [] = [] := rfl

@[simp] theorem failures_sight (s t : TokenStream) (events : List Event) :
    failures s (t.sight :: events) = failures s.advance events := rfl

@[simp] theorem failures_statement (s : TokenStream) (first : Token) (events : List Event) :
    failures s (.statement first :: events) = failures s events := rfl

@[simp] theorem failures_failure (s : TokenStream) (e : Diagnostic) (events : List Event) :
    failures s (.failure e :: events) = (s, e) :: failures s events := rfl

theorem failures_append (s : TokenStream) (events later : List Event) :
    failures s (events ++ later) = failures s events ++ failures (s.behind events) later := by
  fun_induction failures s events with
  | case1 s => rfl
  | case2 s t events ih => exact ih
  | case3 s t events ih => exact ih
  | case4 s e events ih => exact congrArg _ ih

/-- Without their places, the failures are the errors. -/
theorem map_failures (s : TokenStream) (events : List Event) :
    (failures s events).map (·.2) = errorsOf events := by
  fun_induction failures s events with
  | case1 s => rfl
  | case2 s t events ih => exact ih
  | case3 s t events ih => exact ih
  | case4 s e events ih => exact congrArg _ ih

theorem failures_skipStatement (inBlock : Bool) (depth : Nat) (s : TokenStream) :
    failures s (skipStatement inBlock depth s).events = [] := by
  rw [← List.map_eq_nil_iff, map_failures, errorsOf_skipStatement]

/-! ### Boundaries -/

/-- Can a token of this kind be the end of a statement, or the beginning of
the next one, and nothing within an expression? -/
def Kind.isBoundary : Kind → Bool
  | eof | semicolon | kwLet | kwReturn => true
  | _ => false

namespace Kind

variable {kind : Kind}

theorem lead?_of_isBoundary (h : kind.isBoundary) : kind.lead? = none := by
  cases kind <;> first | rfl | cases h

theorem precedence_of_isBoundary (h : kind.isBoundary) : kind.precedence = .lowest := by
  cases kind <;> first | rfl | cases h

end Kind

/-- Two sources, each from a boundary on, that cannot be told apart from
before it. -/
structure Alike (x y : TokenStream) : Prop where
  left : x.current.kind.isBoundary
  right : y.current.kind.isBoundary
  /-- A semicolon is taken into the statement before it, and so has to be the same. -/
  semicolon : x.current.kind = .semicolon ∨ y.current.kind = .semicolon → x.current = y.current

/-- Two streams that begin alike and go on as `x` and `y`.  What they share
closes all braces that are open, at least `d` of them, and none that is not open. -/
def Twins (x y : TokenStream) (d : Nat) (s t : TokenStream) : Prop :=
  ∃ us e, s.pending = us ++ x.pending ∧ t.pending = us ++ y.pending ∧
    s.last = x.last ∧ t.last = y.last ∧ Leads e us 0 ∧ d ≤ e

/-- Two streams that stand on the same token, before the boundary. -/
structure Standing (x y : TokenStream) (d : Nat) (s t : TokenStream) : Prop where
  current : s.current = t.current
  ne_eof : s.current.kind ≠ .eof
  behind : Twins x y (bracesAfter d s.current.kind) s.advance t.advance

/-- Two streams that stand on the same token, before the boundary, which has
been read already and opens no brace. -/
structure Following (x y : TokenStream) (d : Nat) (s t : TokenStream) : Prop where
  current : s.current = t.current
  ne_eof : s.current.kind ≠ .eof
  ne_opening : s.current.kind ≠ .openCurly
  behind : Twins x y d s.advance t.advance

variable {x y s t : TokenStream}
variable {d : Nat}
variable {kind : Kind}

/-- A stream that has come to the boundary, or the token before which both stand. -/
theorem Twins.cases (h : Twins x y d s t) :
    (d = 0 ∧ s = x ∧ t = y) ∨ Standing x y d s t := by
  obtain ⟨us, e, hs, ht, hsl, htl, hleads, hle⟩ := h
  rcases us with - | ⟨c, us⟩
  · -- nothing is shared any more
    cases hleads
    exact .inl ⟨Nat.le_zero.mp hle, TokenStream.ext hs hsl, TokenStream.ext ht htl⟩
  · have hcs : s.current = c := TokenStream.current_of_pending hs
    have hct : t.current = c := TokenStream.current_of_pending ht
    refine .inr ⟨hcs.trans hct.symm, ?_, ?_⟩
    · exact hcs ▸ s.kind_pending c (by rw [hs]; exact List.mem_cons_self)
    · have hs' := TokenStream.pending_advance_of_pending hs
      have ht' := TokenStream.pending_advance_of_pending ht
      rw [hcs]
      -- the first of the shared tokens may open or close a brace
      cases hleads with
      | opening ho hleads =>
        refine ⟨us, e + 1, hs', ht', hsl, htl, hleads, ?_⟩
        rw [ho]
        exact Nat.succ_le_succ hle
      | closing hc hleads =>
        refine ⟨us, _, hs', ht', hsl, htl, hleads, ?_⟩
        rw [hc]
        exact Nat.sub_le_of_le_add hle
      | other ho hc hleads =>
        refine ⟨us, e, hs', ht', hsl, htl, hleads, ?_⟩
        unfold bracesAfter
        split
        · next h => exact absurd h ho
        · next h => exact absurd h hc
        · exact hle

/-- Within braces, the boundary is not reached. -/
theorem Twins.standing (h : Twins x y (d + 1) s t) : Standing x y (d + 1) s t :=
  h.cases.resolve_left fun h => absurd h.1 (Nat.succ_ne_zero d)

theorem Standing.following (h : Standing x y d s t) (hk : s.current.kind = kind)
    (hb : kind.isBrace = false) : Following x y d s t := by
  obtain ⟨ho, hc⟩ := Kind.isBrace_eq_false_iff.mp hb
  refine ⟨h.current, h.ne_eof, hk ▸ ho, ?_⟩
  -- a token that is no brace leaves the count as it is
  have hbehind := h.behind
  unfold bracesAfter at hbehind
  split at hbehind
  · next h => exact absurd (hk.symm.trans h) ho
  · next h => exact absurd (hk.symm.trans h) hc
  · exact hbehind

/-- Behind its closing brace, a block is over. -/
theorem Standing.following_closing (h : Standing x y (d + 1) s t)
    (hk : s.current.kind = .closeCurly) : Following x y d s t := by
  refine ⟨h.current, h.ne_eof, by rw [hk]; decide, ?_⟩
  have hbehind := h.behind
  rwa [hk] at hbehind

theorem Twins.mono {e : Nat} (h : Twins x y d s t) (hle : e ≤ d) : Twins x y e s t := by
  obtain ⟨us, k, hs, ht, hsl, htl, hleads, hk⟩ := h
  exact ⟨us, k, hs, ht, hsl, htl, hleads, Nat.le_trans hle hk⟩

/-- The token on which both stand is one that they share. -/
theorem Standing.twins (h : Standing x y d s t) : Twins x y d s t := by
  obtain ⟨us, e, hs, ht, hsl, htl, hleads, hle⟩ := h.behind
  have hs' : s.pending = (s.current :: us) ++ x.pending := by
    rw [TokenStream.pending_eq_cons h.ne_eof, hs, List.cons_append]
  have ht' : t.pending = (s.current :: us) ++ y.pending := by
    rw [TokenStream.pending_eq_cons (h.current ▸ h.ne_eof), ht, h.current, List.cons_append]
  -- the count before the token, from the one behind it
  unfold bracesAfter at hle
  split at hle
  · next ho =>
    obtain ⟨e, rfl⟩ := Nat.exists_eq_add_of_lt hle
    exact ⟨_, d + e, hs', ht', hsl, htl, .opening ho hleads, Nat.le_add_right d e⟩
  · next hc => exact ⟨_, e + 1, hs', ht', hsl, htl, .closing hc hleads, Nat.le_add_of_sub_le hle⟩
  · next ho hc => exact ⟨_, e, hs', ht', hsl, htl, .other ho hc hleads, hle⟩

/-- What has been read may be looked at again. -/
theorem Following.standing (h : Following x y d s t) : Standing x y d s t := by
  refine ⟨h.current, h.ne_eof, h.behind.mono ?_⟩
  unfold bracesAfter
  split
  · next ho => exact absurd ho h.ne_opening
  · exact Nat.sub_le d 1
  · exact Nat.le_refl d

theorem Following.twins (h : Following x y d s t) : Twins x y d s t := h.standing.twins

/-- Both streams have a token of some kind next, or none of them has. -/
theorem Twins.kind_iff (hxy : Alike x y) (h : Twins x y d s t)
    (hk : kind.isBoundary = false ∨ kind = .semicolon) :
    s.current.kind = kind ↔ t.current.kind = kind := by
  rcases h.cases with ⟨-, rfl, rfl⟩ | h
  · -- on the boundary: no other token looks like one, and semicolons are the same
    rcases hk with hk | rfl
    · have hs := hxy.left
      have ht := hxy.right
      constructor
      · rintro rfl
        rw [hk] at hs
        cases hs
      · rintro rfl
        rw [hk] at ht
        cases ht
    · constructor
      · exact fun hs => hxy.semicolon (.inl hs) ▸ hs
      · exact fun ht => hxy.semicolon (.inr ht) ▸ ht
  · rw [h.current]

/-- A token that is no boundary stands before it. -/
theorem Twins.standing_of_kind (hxy : Alike x y) (h : Twins x y d s t)
    (hk : s.current.kind = kind) (hb : kind.isBoundary = false) : Standing x y d s t := by
  rcases h.cases with ⟨-, rfl, rfl⟩ | h
  · have hs := hxy.left
    rw [hk, hb] at hs
    cases hs
  · exact h

theorem Twins.current_eq (h : Twins x y d s t) (heq : x.current = y.current) :
    s.current = t.current := by
  rcases h.cases with ⟨-, rfl, rfl⟩ | h
  · exact heq
  · exact h.current

/-! ### Skipping -/

/-- A token that is skipped within a block is counted, whatever it is. -/
theorem Standing.skip {b : Nat} (h : Standing x y (d + 1 + b) s t)
    (hstop : ¬ stopsOn true b s.current.kind) :
    Standing x y (d + 1 + bracesAfter b s.current.kind) s.advance t.advance := by
  have hbehind := h.behind
  -- only a closing brace within the block is counted, for the block's own would stop it
  have hcount : bracesAfter (d + 1 + b) s.current.kind =
      d + 1 + bracesAfter b s.current.kind := by
    unfold bracesAfter
    split
    · rfl
    · next hc =>
      cases b with
      | zero => exact absurd (by rw [hc]; rfl) hstop
      | succ b => rfl
    · rfl
  rw [hcount, Nat.add_right_comm] at hbehind
  rw [Nat.add_right_comm]
  exact hbehind.standing

/-- Within a block, skipping ends before the boundary. -/
theorem skipStatement_twins {b : Nat} (h : Standing x y (d + 1 + b) s t) :
    let o := skipStatement true b s
    let o' := skipStatement true b t
    o.value = o'.value ∧ if o.value then Standing x y (d + 1) o.rest o'.rest ∧
        o.rest.current.kind = .closeCurly
      else Standing x y (d + 1) o.rest.advance o'.rest.advance := by
  fun_induction skipStatement true b s generalizing t
  case case1 b s hstop =>
    rw [skipStatement_of_stopsOn (s := t) (h.current ▸ hstop)]
    -- skipping ends outside of all braces
    obtain ⟨rfl, hk⟩ : b = 0 ∧ (s.current.kind = .semicolon ∨ s.current.kind = .closeCurly) := by
      simpa [stopsOn, h.ne_eof] using hstop
    refine ⟨congrArg (fun c => decide (c.kind = .closeCurly)) h.current, ?_⟩
    rcases hk with hk | hk
    · rw [hk]
      exact (h.following hk rfl).behind.standing
    · rw [if_pos (decide_eq_true hk)]
      exact ⟨h, hk⟩
  case case2 b s hstop later hbefore =>
    have hskip := h.skip hstop
    have hpeek : s.peek = t.peek := hskip.current
    rw [skipStatement_of_stopsBefore (s := t) (h.current ▸ hstop) (h.current ▸ hpeek ▸ hbefore)]
    -- the token before which skipping ends is the first one that is not skipped
    obtain ⟨hlater, -⟩ : later = 0 ∧ _ := by simpa [stopsBefore] using hbefore
    rw [show bracesAfter b s.current.kind = 0 from hlater] at hskip
    exact ⟨rfl, hskip⟩
  case case3 b s hstop later hbefore o ih =>
    -- the token that is skipped is shared, and so is the next one
    have hskip := h.skip hstop
    have hpeek : s.peek = t.peek := hskip.current
    rw [skipStatement_of_goesOn (s := t) (h.current ▸ hstop) (h.current ▸ hpeek ▸ hbefore),
      ← h.current]
    exact ih hskip

namespace Parser

/-! ### Parsers that come out the same -/

/-- The events of two runs tell of the same failures, up to what the boundary
is; and none of them leaves the reader who starts from `t` at its end. -/
def Matches (x y t : TokenStream) (events events' : List Event) : Prop :=
  (x.current = y.current → errorsOf events = errorsOf events') ∧
    ∀ f ∈ failures t events', f.1.pending ≠ []

/-- Run on `s` and on `t`, with `d` braces open, `p` reads the same and stops
at places of which `Q` holds; or it fails on both, for the same reason up to
what the boundary is, and leaves as much of what they share. -/
def Agrees (x y : TokenStream) (d : Nat) (p : Parser α) (s t : TokenStream)
    (Q : TokenStream → TokenStream → Prop) : Prop :=
  Matches x y t (p.run s).events (p.run t).events ∧
    ((∃ a, (p.run s).value = .ok a ∧ (p.run t).value = .ok a ∧ Q (p.run s).rest (p.run t).rest) ∨
      ∃ e e', (p.run s).value = .error e ∧ (p.run t).value = .error e' ∧
        (x.current = y.current → e = e') ∧ Twins x y d (p.run s).rest (p.run t).rest)

section Laws

variable {p : Parser α} {f : α → Parser β} {a : α}
variable {P Q : TokenStream → TokenStream → Prop}

theorem Matches.nil : Matches x y t [] [] :=
  ⟨fun _ => rfl, fun _ h => nomatch h⟩

theorem Matches.append {events events' later later' : List Event}
    (h : Matches x y t events events') (h' : Matches x y (t.behind events') later later') :
    Matches x y t (events ++ later) (events' ++ later') := by
  refine ⟨fun heq => ?_, ?_⟩
  · rw [errorsOf_append, errorsOf_append, h.1 heq, h'.1 heq]
  · rw [failures_append]
    intro g hg
    -- a failure of the first run, or of the second, which starts further on
    rcases List.mem_append.mp hg with hg | hg
    · exact h.2 g hg
    · exact h'.2 g hg

theorem Matches.failure {e e' : Diagnostic} {events events' : List Event}
    (he : x.current = y.current → e = e') (ht : t.current.kind ≠ .eof)
    (h : Matches x y t events events') :
    Matches x y t (.failure e :: events) (.failure e' :: events') := by
  refine ⟨fun heq => ?_, ?_⟩
  · rw [errorsOf_failure, errorsOf_failure, he heq, h.1 heq]
  · rw [failures_failure, List.forall_mem_cons]
    exact ⟨fun hp => ht (TokenStream.kind_current_eq_eof_iff.mpr hp), h.2⟩

theorem matches_skipStatement {inBlock : Bool} {b : Nat} :
    Matches x y t (skipStatement inBlock b s).events (skipStatement inBlock b t).events := by
  unfold Matches
  rw [errorsOf_skipStatement, errorsOf_skipStatement, failures_skipStatement]
  exact ⟨fun _ => rfl, fun _ h => nomatch h⟩

theorem Agrees.ok (h : Agrees x y d p s t P) (ha : (p.run s).value = .ok a) :
    (p.run t).value = .ok a ∧ P (p.run s).rest (p.run t).rest := by
  obtain ⟨-, ⟨b, hs, ht, hP⟩ | ⟨e, e', hs, -⟩⟩ := h
  · obtain rfl : b = a := Except.ok.inj (hs.symm.trans ha)
    exact ⟨ht, hP⟩
  · rw [hs] at ha
    cases ha

theorem Agrees.error {e : Diagnostic} (h : Agrees x y d p s t P)
    (he : (p.run s).value = .error e) :
    ∃ e', (p.run t).value = .error e' ∧ (x.current = y.current → e = e') ∧
      Twins x y d (p.run s).rest (p.run t).rest := by
  obtain ⟨-, ⟨b, hs, -⟩ | ⟨e₁, e₂, hs, ht, heq, htwins⟩⟩ := h
  · rw [hs] at he
    cases he
  · obtain rfl : e₁ = e := Except.error.inj (hs.symm.trans he)
    exact ⟨e₂, ht, heq, htwins⟩

theorem agrees_pure (h : Q s t) : Agrees x y d (pure a : Parser α) s t Q :=
  ⟨.nil, .inl ⟨a, rfl, rfl, h⟩⟩

theorem Agrees.bind (h : Agrees x y d p s t P)
    (h' : ∀ a s' t', P s' t' → Agrees x y d (f a) s' t' Q) :
    Agrees x y d (p >>= f) s t Q := by
  have ht := p.rest_eq t
  unfold Agrees at h ⊢
  rw [run_bind, run_bind]
  rcases hrun : p.run s with ⟨r, s', events⟩
  rcases hrun' : p.run t with ⟨r', t', events'⟩
  rw [hrun] at h
  rw [hrun'] at h ht
  obtain ⟨hmatch, ⟨a, rfl, rfl, hP⟩ | ⟨e, e', rfl, rfl, he, htwins⟩⟩ := h
  · -- both succeed, and the second parser runs on both rests
    obtain ⟨hlater, hvalue⟩ := h' a s' t' hP
    rw [after_ok, after_ok]
    exact ⟨hmatch.append (ht ▸ hlater), hvalue⟩
  · rw [after_error, after_error]
    exact ⟨hmatch, .inr ⟨e, e', rfl, rfl, he, htwins⟩⟩

/-- What is left has been reached by moving forward. -/
theorem Agrees.forward (h : Agrees x y d p s t P) :
    Agrees x y d p s t fun s' t' => P s' t' ∧ s' ≤ s := by
  obtain ⟨hmatch, ⟨a, hs, ht, hPa⟩ | herror⟩ := h
  · exact ⟨hmatch, .inl ⟨a, hs, ht, hPa, p.rest_le s⟩⟩
  · exact ⟨hmatch, .inr herror⟩

theorem agrees_current {f : Token → Parser β} (hc : s.current = t.current)
    (h : Agrees x y d (f s.current) s t Q) : Agrees x y d (current >>= f) s t Q := by
  unfold Agrees at h ⊢
  simp only [run_bind, run_current, after_ok, List.nil_append]
  rwa [← hc]

theorem agrees_advance {f : Unit → Parser β} (h : Agrees x y d (f ()) s.advance t.advance Q) :
    Agrees x y d (advance >>= f) s t Q := h

theorem agrees_announce {first : Token} {f : Unit → Parser β} (h : Agrees x y d (f ()) s t Q) :
    Agrees x y d (announce first >>= f) s t Q := h

theorem agrees_fail {e : Diagnostic} (h : Twins x y d s t) :
    Agrees x y d (fail e : Parser α) s t Q :=
  ⟨.nil, .inr ⟨e, e, rfl, rfl, fun _ => rfl, h⟩⟩

/-- A failure that tells of the current token, which may be the boundary. -/
theorem agrees_fail_current {error : Token → Diagnostic} (h : Twins x y d s t) :
    Agrees x y d (current >>= fun token => fail (error token) : Parser α) s t Q :=
  ⟨.nil, .inr ⟨error s.current, error t.current, rfl, rfl,
    fun heq => congrArg error (h.current_eq heq), h⟩⟩

/-- A choice by the kind of the next token. -/
theorem agrees_ifPeek (hxy : Alike x y) {p q : Parser β} (h : Following x y d s t)
    (hk : kind.isBoundary = false)
    (hp : Standing x y d s.advance t.advance → s.peek.kind = kind → Agrees x y d p s t Q)
    (hq : Agrees x y d q s t Q) :
    Agrees x y d (peek >>= fun next => if next.kind = kind then p else q) s t Q := by
  have hiff : s.peek.kind = kind ↔ t.peek.kind = kind := h.behind.kind_iff hxy (.inl hk)
  unfold Agrees at hp hq ⊢
  simp only [run_bind, run_peek, after_ok, List.nil_append, ← hiff]
  by_cases hnext : s.peek.kind = kind
  · simp only [hnext, if_true]
    exact hp (h.behind.standing_of_kind hxy hnext hk) hnext
  · simp only [hnext, if_false]
    exact hq

theorem agrees_expect (hxy : Alike x y) {f : Token → Parser β} (h : Following x y d s t)
    (hk : kind.isBoundary = false)
    (hf : ∀ found, Standing x y d s.advance t.advance → s.peek.kind = kind →
      Agrees x y d (f found) s.advance t.advance Q) :
    Agrees x y d (expect kind >>= f) s t Q := by
  -- the token is expected on its own first, and then what comes behind it
  have hexpect : Agrees x y d (expect kind) s t fun s' t' =>
      s' = s.advance ∧ t' = t.advance ∧ Standing x y d s.advance t.advance ∧
        s.peek.kind = kind := by
    have hiff : s.peek.kind = kind ↔ t.peek.kind = kind := h.behind.kind_iff hxy (.inl hk)
    by_cases hnext : s.peek.kind = kind
    · -- it is there, on both sides
      have hstanding := h.behind.standing_of_kind hxy hnext hk
      have hpeek : s.peek = t.peek := hstanding.current
      refine ⟨?_, .inl ⟨s.peek, ?_, ?_, ?_⟩⟩
      · simp [expect, hnext, ← hpeek, Matches]
      · simp [expect, hnext]
      · simp [expect, hnext, ← hpeek]
      · simp [expect, hnext, ← hpeek, hstanding]
    · -- it is missing on both, and what is there may be the boundary
      have hnext' : t.peek.kind ≠ kind := fun h => hnext (hiff.mpr h)
      refine ⟨?_, .inr ⟨⟨.unexpectedToken kind s.peek.kind, s.peek.span.start⟩,
        ⟨.unexpectedToken kind t.peek.kind, t.peek.span.start⟩, ?_, ?_, ?_, ?_⟩⟩
      · simp [expect, hnext, hnext', Matches]
      · simp [expect, hnext]
      · simp [expect, hnext']
      · intro heq
        have hpeek : s.peek = t.peek := h.behind.current_eq heq
        rw [hpeek]
      · simpa [expect, hnext, hnext'] using h.twins
  apply hexpect.bind
  rintro found _ _ ⟨rfl, rfl, hstanding, hnext⟩
  exact hf found hstanding hnext

/-- A loop that no boundary continues. -/
theorem agrees_foldPeek (hxy : Alike x y) {more : Kind → Bool} {stops : more .eof = false}
    {step : α → Parser α} (hmore : ∀ {k}, more k → k.isBoundary = false)
    (h : Following x y d s t)
    (hstep : ∀ {a} {s t : TokenStream}, Standing x y d s.advance t.advance → more s.peek.kind →
      Agrees x y d (step a) s.advance t.advance (Following x y d)) :
    Agrees x y d (foldPeek more stops step a) s t (Following x y d) := by
  -- on the turns of the loop of the first run; the second one goes round with it
  induction a, s using foldPeek_induction stops generalizing t with
  | turn a s ih =>
    have hrun := run_foldPeek more stops step a s
    have hrun' := run_foldPeek more stops step a t
    have hiff : more s.peek.kind ↔ more t.peek.kind := by
      constructor
      · intro hs
        have hkind := (h.behind.kind_iff hxy (.inl (hmore hs))).mp rfl
        exact (congrArg more hkind).trans hs
      · intro ht
        have hkind := (h.behind.kind_iff hxy (.inl (hmore ht))).mpr rfl
        exact (congrArg more hkind).trans ht
    by_cases hs : more s.peek.kind
    · rw [if_pos hs] at hrun
      rw [if_pos (hiff.mp hs)] at hrun'
      have hstanding := h.behind.standing_of_kind hxy rfl (hmore hs)
      -- a turn, and the loop from where it stops
      have hloop : Agrees x y d ((advance >>= fun _ => step a) >>= foldPeek more stops step) s t
          (Following x y d) := by
        apply (agrees_advance (hstep hstanding hs).forward).bind
        rintro b s' t' ⟨hfollowing, hle⟩
        exact ih hs b s' hle hfollowing
      unfold Agrees at hloop ⊢
      rw [hrun, hrun']
      exact hloop
    · -- no turn on either side
      rw [if_neg hs] at hrun
      rw [if_neg fun ht => hs (hiff.mpr ht)] at hrun'
      unfold Agrees
      rw [hrun, hrun']
      exact ⟨.nil, .inl ⟨a, rfl, rfl, h⟩⟩

/-- Where a statement ends: before the boundary, or on it if it is a semicolon. -/
inductive Ended (x y : TokenStream) (d : Nat) (s t : TokenStream) : Prop
  | before : Following x y d s t → Ended x y d s t
  | semicolon : d = 0 → x.current.kind = .semicolon → s = x → t = y → Ended x y d s t

theorem Ended.current (hxy : Alike x y) (h : Ended x y d s t) : s.current = t.current := by
  cases h with
  | before h => exact h.current
  | semicolon _ hk hs ht => exact hs ▸ ht ▸ hxy.semicolon (.inl hk)

theorem Ended.following (h : Ended x y (d + 1) s t) : Following x y (d + 1) s t := by
  cases h with
  | before h => exact h
  | semicolon hd _ _ _ => exact absurd hd (Nat.succ_ne_zero d)

theorem agrees_accept (hxy : Alike x y) {f : Unit → Parser β} (h : Following x y d s t)
    (hf : ∀ {s' t'}, Ended x y d s' t' → Agrees x y d (f ()) s' t' Q) :
    Agrees x y d (accept .semicolon >>= f) s t Q := by
  have haccept : Agrees x y d (accept .semicolon) s t (Ended x y d) := by
    have hiff : s.peek.kind = .semicolon ↔ t.peek.kind = .semicolon :=
      h.behind.kind_iff hxy (.inr rfl)
    by_cases hnext : s.peek.kind = .semicolon
    · -- the semicolon is the boundary, or stands before it
      have hended : Ended x y d s.advance t.advance := by
        rcases h.behind.cases with ⟨hd, hs, ht⟩ | hstanding
        · exact .semicolon hd (hs ▸ hnext) hs ht
        · exact .before (hstanding.following hnext rfl)
      refine ⟨?_, .inl ⟨(), ?_, ?_, ?_⟩⟩
      · simp [accept, hnext, hiff.mp hnext, Matches]
      · simp [accept, hnext]
      · simp [accept, hiff.mp hnext]
      · simpa [accept, hnext, hiff.mp hnext] using hended
    · have hnext' : t.peek.kind ≠ .semicolon := fun h => hnext (hiff.mpr h)
      refine ⟨?_, .inl ⟨(), ?_, ?_, ?_⟩⟩
      · simp [accept, hnext, hnext', Matches]
      · simp [accept, hnext]
      · simp [accept, hnext']
      · simpa [accept, hnext, hnext'] using Ended.before h
  exact haccept.bind fun _ _ _ => hf

end Laws

end Parser

end LetFn
