/-
LetFn/Proofs/Reader.lean

Readers do what parsers say.

A reader changes its state all the time: its window moves, errors are
collected, and two counters go up and down.  A parser has no state, and what
the counters decide is there decided by which parser it is: with so many
levels to spare, inside or outside of blocks.

`Follows d A p` says that the action `A` of a reader at depth `d` comes to the
same as the parser `p`: it has the same value, stops at the same place, adds
the same errors, and leaves both counters as it has found them, whether it
succeeds or fails.  There is a law for each way to put actions together;
`LetFn.Proofs.Reader.Levels` goes through what readers do.

Main statements: `Follows.bind`, and `follows_foldPeek` for loops.
-/
import LetFn.Reader.Basic

namespace LetFn

variable {α β : Type}
variable {w : Window} {r : Reader} {s : TokenStream}

/-! ### Readers and streams -/

/-- The window shows the first two tokens of the stream, and the source holds
the others. -/
structure Window.Shows (w : Window) (s : TokenStream) : Prop where
  current : w.current = s.current
  peek : w.peek = s.peek
  source : w.source.stream = s.advance.advance

namespace Window

theorem shows_ofSource (source : TokenSource) : (Window.ofSource source).Shows source.stream where
  current := source.fst_next
  peek := by
    show source.next.2.next.1 = _
    rw [TokenSource.fst_next, source.stream_next]
    rfl
  source := by
    show source.next.2.next.2.stream = _
    rw [TokenSource.stream_next, source.stream_next]

theorem Shows.advance (h : w.Shows s) : w.advance.Shows s.advance where
  current := h.peek
  peek := by
    show w.source.next.1 = _
    rw [TokenSource.fst_next, h.source]
    rfl
  source := by
    show w.source.next.2.stream = _
    rw [TokenSource.stream_next, h.source]

/-- Where a sequence of statements in a block goes on. -/
theorem Shows.goesOn (h : w.Shows s)
    (hends : ¬ Parser.endsSequence true s.current.kind) :
    w.current.kind ≠ .closeCurly ∧ w.current.kind ≠ .eof := by
  rw [h.current]
  exact ⟨fun hk => hends (by rw [hk]; rfl), Parser.ne_eof_of_not_endsSequence hends⟩

end Window

namespace Reader

/-- What a run with the given outcome makes of a reader. -/
structure Carried {β : Type} (r : Reader) (o : Outcome β) (r' : Reader) : Prop where
  shows : r'.window.Shows o.rest
  errors : r'.errors = r.errors ++ errorsOf o.events
  depth : r'.depth = r.depth
  blockDepth : r'.blockDepth = r.blockDepth

/-- One run after another. -/
theorem Carried.trans {o : Outcome α} {o' : Outcome β} {r₁ r₂ : Reader} (h : r.Carried o r₁)
    (h' : r₁.Carried o' r₂) {b : β} {events : List Event}
    (hevents : errorsOf events = errorsOf o.events ++ errorsOf o'.events) :
    r.Carried ⟨b, o'.rest, events⟩ r₂ where
  shows := h'.shows
  errors := by rw [h'.errors, h.errors, hevents, List.append_assoc]
  depth := h'.depth.trans h.depth
  blockDepth := h'.blockDepth.trans h.blockDepth

/-- Nothing happens. -/
theorem Carried.refl {b : β} (h : r.window.Shows s) : r.Carried ⟨b, s, []⟩ r :=
  ⟨h, (List.append_nil _).symm, rfl, rfl⟩

/-- Only the errors of the events matter. -/
theorem Carried.congr {o : Outcome α} {o' : Outcome β} {r' : Reader} (h : r.Carried o r')
    (hrest : o'.rest = o.rest) (hevents : errorsOf o'.events = errorsOf o.events) :
    r.Carried o' r' where
  shows := hrest ▸ h.shows
  errors := hevents ▸ h.errors
  depth := h.depth
  blockDepth := h.blockDepth

namespace Action

variable {d : Nat}
variable {A : Action α} {p : Parser α} {f : α → Action β} {g : α → Parser β}

/-! ### Actions that do what parsers say -/

/-- At depth `d`, the action comes to the same as the parser, and leaves the
counters as they were. -/
def Follows (d : Nat) (A : Action α) (p : Parser α) : Prop :=
  ∀ r s, r.window.Shows s → r.depth = d →
    (A.run r).1 = (p.run s).value ∧ r.Carried (p.run s) (A.run r).2

theorem follows_pure (a : α) : Follows d (pure a) (pure a) :=
  fun _ _ h _ => ⟨rfl, .refl h⟩

theorem follows_fail (e : Diagnostic) : Follows d (fail e : Action α) (Parser.fail e) :=
  fun _ _ h _ => ⟨rfl, .refl h⟩

theorem follows_current : Follows d current Parser.current :=
  fun _ _ h _ => ⟨congrArg Except.ok h.current, .refl h⟩

theorem follows_peek : Follows d peek Parser.peek :=
  fun _ _ h _ => ⟨congrArg Except.ok h.peek, .refl h⟩

theorem follows_advance : Follows d advance Parser.advance :=
  fun _ _ h _ => ⟨rfl, h.advance, (List.append_nil _).symm, rfl, rfl⟩

/-- A statement that is announced. -/
theorem Follows.announce {first : Token} (h : Follows d A p) :
    Follows d A (Parser.announce first >>= fun _ => p) := by
  intro r s hs hd
  obtain ⟨hvalue, hcarried⟩ := h r s hs hd
  exact ⟨hvalue, hcarried.congr rfl rfl⟩

/-- The value of one run is passed on to the next. -/
theorem follows_after {o : Except Diagnostic α × Reader} {o' : Outcome (Except Diagnostic α)}
    (hvalue : o.1 = o'.value) (ho : r.Carried o' o.2)
    (hf : ∀ a, o'.value = .ok a → ((f a).run o.2).1 = ((g a).run o'.rest).value ∧
      o.2.Carried ((g a).run o'.rest) ((f a).run o.2).2) :
    (after o f).1 = (Parser.after o' g).value ∧ r.Carried (Parser.after o' g) (after o f).2 := by
  unfold after Parser.after
  rw [hvalue]
  rcases hv : o'.value with e | a
  · -- a failure: neither of the two goes on
    exact ⟨rfl, ho.congr rfl rfl⟩
  · obtain ⟨hvalue', hlater⟩ := hf a hv
    exact ⟨hvalue', ho.trans hlater (errorsOf_append _ _)⟩

theorem Follows.bind (h : Follows d A p) (hf : ∀ a, Follows d (f a) (g a)) :
    Follows d (A >>= f) (p >>= g) := by
  intro r s hs hd
  obtain ⟨hvalue, hcarried⟩ := h r s hs hd
  exact follows_after hvalue hcarried fun a _ =>
    hf a _ _ hcarried.shows (hcarried.depth.trans hd)

theorem Follows.ite {c : Prop} [Decidable c] {B : Action α} {q : Parser α}
    (h : c → Follows d A p) (h' : ¬ c → Follows d B q) :
    Follows d (if c then A else B) (if c then p else q) := by
  split
  · next hc => exact h hc
  · next hc => exact h' hc

theorem follows_expect (k : Kind) : Follows d (expect k) (Parser.expect k) := by
  intro r s h hd
  -- what each of the two comes to, so that one case split does for both
  have hrun : (expect k).run r = if r.window.peek.kind = k then (.ok r.window.peek, r.advance)
      else (.error ⟨.unexpectedToken k r.window.peek.kind, r.window.peek.span.start⟩, r) := by
    show Action.run (if r.window.peek.kind = k then _ else _) r = _
    split
    · rfl
    · rfl
  have hrun' : (Parser.expect k).run s = if s.peek.kind = k then ⟨.ok s.peek, s.advance, [s.sight]⟩
      else ⟨.error ⟨.unexpectedToken k s.peek.kind, s.peek.span.start⟩, s, []⟩ := by
    show Parser.run (if s.peek.kind = k then _ else _) s = _
    split
    · rfl
    · rfl
  rw [hrun, hrun', h.peek]
  split
  · exact ⟨rfl, (follows_advance r s h hd).2.congr rfl rfl⟩
  · exact ⟨rfl, .refl h⟩

theorem follows_accept (k : Kind) : Follows d (accept k) (Parser.accept k) :=
  follows_peek.bind fun _ => .ite (fun _ => follows_advance) fun _ => follows_pure _

/-! ### Loops over items -/

theorem run_foldPeek (more : Kind → Bool) (stops : more .eof = false) (step : α → Action α)
    (a : α) (r : Reader) : (foldPeek more stops step a).run r =
      if more r.window.peek.kind then
        after ((advance >>= fun _ => step a).run r) (foldPeek more stops step)
      else (.ok a, r) := by
  show runFold more stops step a r = _
  rw [runFold]
  split
  · rfl
  · rfl

theorem follows_foldPeek {more more' : Kind → Bool} {stops : more .eof = false}
    {stops' : more' .eof = false} {step : α → Action α} {step' : α → Parser α}
    (hmore : ∀ k, more k = more' k) (hstep : ∀ a, Follows d (step a) (step' a)) (a : α) :
    Follows d (foldPeek more stops step a) (Parser.foldPeek more' stops' step' a) := by
  intro r s h hd
  -- on the turns of the parser: the action takes the same ones
  induction a, s using Parser.foldPeek_induction stops' generalizing r with
  | turn a s ih =>
    rw [run_foldPeek, Parser.run_foldPeek, h.peek, hmore]
    split
    · next hm =>
      -- one turn
      obtain ⟨hvalue, hcarried⟩ := (follows_advance.bind fun _ => hstep a) r s h hd
      refine follows_after hvalue hcarried fun b _ => ?_
      exact ih hm b _ ((step' a).rest_le _) _ hcarried.shows (hcarried.depth.trans hd)
    · exact ⟨rfl, .refl h⟩

theorem follows_separated {k : Kind} {hk : .eof ≠ k} {hk' : k ≠ .eof} (h : Follows d A p) :
    Follows d (separated k hk A) (Parser.separated k hk' p) :=
  h.bind fun _ =>
    (follows_foldPeek (fun _ => rfl) (fun _ => h.bind fun _ => follows_pure _) _).bind
      fun _ => follows_pure _

end Action

end Reader

end LetFn
