/-
LetFn/Token/Source.lean

Token sources.  A source is asked for one token after the other, and answers
every time: where it has no token left, it gives an `eof`, again and again.
There are two kinds of sources, a text that is scanned while it is being
read, and tokens that have been collected ahead of time.

A source changes with each token that is taken from it.  What it is going to
give is a token stream, and that is all that its user can ever see of it.

Main statements: the next token is the current one of the stream
(`fst_next`), and behind it the source gives what the stream still holds
(`stream_next`).
-/
import LetFn.Token.Scanner

namespace LetFn

/-! ### Collected tokens -/

/-- Tokens that have been collected ahead of time. -/
structure TokenBuffer where
  /-- The tokens that have not been taken. -/
  tokens : List Token
  /-- The token that is given again and again at the end. -/
  last : Token
  /-- Has the end been reached?  What stands behind it is ignored. -/
  exhausted : Bool := false
  kind_last : last.kind = .eof
  deriving DecidableEq

namespace TokenBuffer

/-- The tokens of a list up to its first `eof`.  A list without one gets it
in `file`, where its last token ends. -/
def ofTokens (file : String) (tokens : List Token) : TokenBuffer where
  tokens := tokens
  last := TokenStream.lastOf file tokens
  kind_last := TokenStream.kind_lastOf file tokens

/-- Takes one token. -/
def next (b : TokenBuffer) : Token × TokenBuffer :=
  if b.exhausted then (b.last, b)
  else
    match b.tokens with
    | [] => (b.last, { b with exhausted := true })
    | t :: later =>
      if t.kind = .eof then (b.last, { b with tokens := later, exhausted := true })
      else (t, { b with tokens := later })

/-- What a buffer is going to give. -/
def stream (b : TokenBuffer) : TokenStream where
  pending := if b.exhausted then [] else b.tokens.takeWhile fun t => t.kind ≠ .eof
  last := b.last
  kind_pending t ht := by
    split at ht
    · cases ht
    · simpa using List.all_eq_true.mp List.all_takeWhile t ht
  kind_last := b.kind_last

theorem stream_ofTokens (file : String) (tokens : List Token) :
    (ofTokens file tokens).stream = .ofTokens file tokens := rfl

theorem next_eq (b : TokenBuffer) :
    b.next.1 = b.stream.current ∧ b.next.2.stream = b.stream.advance := by
  obtain ⟨tokens, last, exhausted, hlast⟩ := b
  cases exhausted with
  | true => exact ⟨rfl, rfl⟩
  | false =>
    rcases tokens with - | ⟨t, later⟩
    · exact ⟨rfl, rfl⟩
    · by_cases hk : t.kind = .eof
      · simp [next, stream, hk, TokenStream.current, TokenStream.advance]
      · simp [next, stream, hk, TokenStream.current, TokenStream.advance]

end TokenBuffer

/-! ### Sources -/

/-- Where tokens come from. -/
inductive TokenSource where
  /-- A text, from a cursor on. -/
  | text (cursor : Cursor)
  /-- Collected tokens. -/
  | buffer (buffer : TokenBuffer)
  deriving DecidableEq

namespace TokenSource

/-- Takes one token. -/
def next : TokenSource → Token × TokenSource
  | text cursor => (cursor.next.1, text cursor.next.2)
  | buffer b => (b.next.1, buffer b.next.2)

/-- What a source is going to give. -/
def stream : TokenSource → TokenStream
  | text cursor => cursor.stream
  | buffer b => b.stream

theorem fst_next (source : TokenSource) : source.next.1 = source.stream.current := by
  cases source with
  | text cursor => exact cursor.current_stream.symm
  | buffer b => exact b.next_eq.1

theorem stream_next (source : TokenSource) : source.next.2.stream = source.stream.advance := by
  cases source with
  | text cursor => exact cursor.advance_stream.symm
  | buffer b => exact b.next_eq.2

/-! ### Many tokens -/

/-- The source from which `n` more tokens have been taken. -/
def skip (source : TokenSource) : Nat → TokenSource
  | 0 => source
  | n + 1 => (source.skip n).next.2

/-- The token that a source gives behind `n` others. -/
def token (source : TokenSource) (n : Nat) : Token := (source.skip n).next.1

theorem pending_skip_add (source : TokenSource) (k n : Nat) :
    (source.skip (k + n)).stream.pending = (source.skip k).stream.pending.drop n := by
  induction n with
  | zero => rfl
  | succ n ih =>
    rw [← Nat.add_assoc, skip, stream_next, TokenStream.pending_advance, ih, List.tail_drop]

theorem last_skip (source : TokenSource) (n : Nat) :
    (source.skip n).stream.last = source.stream.last := by
  induction n with
  | zero => rfl
  | succ n ih => rw [skip, stream_next, TokenStream.last_advance, ih]

/-- However many tokens are taken, they are those of the stream, and behind them
the last one again and again. -/
theorem token_eq (source : TokenSource) (n : Nat) :
    source.token n = source.stream.pending[n]?.getD source.stream.last := by
  have hpending := pending_skip_add source 0 n
  rw [Nat.zero_add] at hpending
  rw [token, fst_next, TokenStream.current, hpending, last_skip, List.head?_drop]
  rfl

end TokenSource

end LetFn
