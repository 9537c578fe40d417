/-
LetFn/Position.lean

Places in a named source: a position is a byte offset together with the name
of the source, and a span runs from one position to another.

Offsets have 32 bits.  An offset that does not fit is recorded as the
greatest one that does, so that a position is never wrong by wrapping round.
-/
namespace LetFn

/-- The greatest offset that a position records. -/
def maxOffset : Nat := UInt32.size - 1

/-- The offset that is recorded for byte `n`. -/
def saturate (n : Nat) : Nat := min n maxOffset

theorem saturate_of_le {n : Nat} (h : n ≤ maxOffset) : saturate n = n :=
  Nat.min_eq_left h

theorem saturate_le (n : Nat) : saturate n ≤ maxOffset :=
  Nat.min_le_right ..

/-- A place in a named source. -/
structure Position where
  /-- The offset in bytes. -/
  offset : Nat
  /-- The name of the source. -/
  file : String
  deriving DecidableEq, Repr

/-- The position of byte `n` in `file`. -/
def Position.ofByte (file : String) (n : Nat) : Position := ⟨saturate n, file⟩

/-- The position that stands for no place in any source. -/
def Position.null : Position := ⟨0, "<null>"⟩

/-- A stretch of a source, from `start` up to but excluding `stop`. -/
structure Span where
  start : Position
  stop : Position
  deriving DecidableEq, Repr

/-- The span that stands for no stretch of any source. -/
def Span.null : Span := ⟨.null, .null⟩

/-- The span from the start of one span to the end of another. -/
def Span.cover (first last : Span) : Span := ⟨first.start, last.stop⟩

/-- The span of `size` bytes from byte `n` of `file` on. -/
def Span.ofBytes (file : String) (n size : Nat) : Span :=
  ⟨.ofByte file n, .ofByte file (n + size)⟩

end LetFn
