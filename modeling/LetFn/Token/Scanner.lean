/-
LetFn/Token/Scanner.lean

Scanning: from source text to tokens.

A cursor is the text that is still unread, together with the byte at which
it begins.  `Cursor.next` passes over blanks and comments and reads one
token; at the end of the text it gives `eof`, again and again.  Text behind
the greatest offset that a position can hold is not scanned.

A scanner is the same thing seen from outside: it holds the whole source and
a byte offset, which its user may move at will.  Reading fails where the
offset is past the end of the source or inside a character.

Main statements: every token but `eof` uses up some text
(`length_next_lt`), so a source has finitely many of them, and
`TokenStream.ofSource` collects them.  What it collects is what a reader
gets who scans one token at a time (`current_stream`, `advance_stream`).
-/
import LetFn.Token.Lexeme
import LetFn.Token.Stream

namespace LetFn

open LetFn.Text (byteCount dropBytes?)

/-- The name of a source that has none of its own. -/
def defaultFile : String := "shell"

/-- Unread text of a source. -/
structure Cursor where
  /-- The name of the source. -/
  file : String
  /-- The byte of the source at which the unread text begins. -/
  offset : Nat
  /-- The unread text. -/
  text : List Char
  deriving DecidableEq

namespace Cursor

/-- The start of a source. -/
def ofSource (file source : String) : Cursor := ⟨file, 0, source.toList⟩

/-- The cursor behind a lexeme with which the unread text begins. -/
def past (c : Cursor) (l : Lexeme) : Cursor :=
  { c with offset := c.offset + l.size, text := c.text.drop l.text.length }

/-- The token that a lexeme at the cursor makes. -/
def tokenOf (c : Cursor) (kind : Kind) (l : Lexeme) : Token :=
  ⟨kind, String.ofList l.text, .ofBytes c.file c.offset l.size⟩

/-- The token for the end of the source. -/
def endToken (c : Cursor) : Token := .eof (.ofByte c.file c.offset)

/-- Reads one token, and gives it with the cursor behind it. -/
def next (c : Cursor) : Token × Cursor :=
  match _h : c.text with
  | [] => (c.endToken, c)
  | x :: rest =>
    if c.offset ≤ maxOffset then
      let l := Lexeme.first x rest
      match l.tokenKind? with
      | some kind => (c.tokenOf kind l, c.past l)
      | none => next (c.past l)
    else (c.endToken, c)
termination_by c.text.length
decreasing_by
  have := List.length_pos_iff.mpr (Lexeme.text_first_ne_nil x rest)
  simp only [past, List.length_drop, _h, List.length_cons]
  omega

/-- A token that is not `eof` leaves less text unread. -/
theorem length_next_lt (c : Cursor) (h : c.next.1.kind ≠ .eof) :
    c.next.2.text.length < c.text.length := by
  fun_induction next c with
  | case1 c => exact absurd rfl h
  | case2 c x rest hc hle l kind hk =>
    have : 0 < l.text.length := List.length_pos_iff.mpr (Lexeme.text_first_ne_nil x rest)
    simp only [past, List.length_drop, hc, List.length_cons]
    omega
  | case3 c x rest hc hle l hk ih =>
    refine Nat.lt_of_lt_of_le (ih h) ?_
    simp only [past, List.length_drop]
    omega
  | case4 c => exact absurd rfl h

/-- All tokens from the cursor on. -/
def stream (c : Cursor) : TokenStream :=
  if h : c.next.1.kind = .eof then ⟨[], c.next.1, by simp, h⟩
  else
    let later := stream c.next.2
    ⟨c.next.1 :: later.pending, later.last, by simpa [h] using later.kind_pending, later.kind_last⟩
termination_by c.text.length
decreasing_by exact length_next_lt c h

/-! ### A stream is read token by token -/

theorem current_stream (c : Cursor) : c.stream.current = c.next.1 := by
  rw [stream]
  split
  · rfl
  · rfl

theorem next_of_text_nil {c : Cursor} (h : c.text = []) : c.next = (c.endToken, c) := by
  rw [next]
  split
  · rfl
  · next h' => rw [h] at h'; cases h'

theorem next_of_maxOffset_lt {c : Cursor} (h : maxOffset < c.offset) :
    c.next = (c.endToken, c) := by
  rw [next]
  split
  · rfl
  · rw [if_neg (Nat.not_le.mpr h)]

/-- At the end of a source, reading on changes nothing. -/
theorem next_next_of_eof (c : Cursor) (h : c.next.1.kind = .eof) : c.next.2.next = c.next := by
  fun_induction next c with
  | case1 c hc => exact next_of_text_nil hc
  | case2 c x rest hc hle l kind hk =>
    have hk' : kind = .eof := h
    exact absurd (hk' ▸ hk) (Lexeme.tokenKind?_first_ne_eof x rest)
  | case3 c x rest hc hle l hk ih => exact ih h
  | case4 c x rest hc hle => exact next_of_maxOffset_lt (Nat.not_le.mp hle)

/-- Moving on in the stream is scanning on from behind the token. -/
theorem advance_stream (c : Cursor) : c.stream.advance = c.next.2.stream := by
  rw [stream]
  split
  · next h =>
    rw [stream]
    have hn := next_next_of_eof c h
    rw [dif_pos (by rw [hn]; exact h)]
    ext1
    · rfl
    · exact congrArg Prod.fst hn.symm
  · rfl

end Cursor

/-- The tokens of a source. -/
def TokenStream.ofSource (file source : String) : TokenStream :=
  (Cursor.ofSource file source).stream

/-- The tokens of a source, up to and including its one `eof`. -/
def tokenize (file source : String) : List Token := (TokenStream.ofSource file source).toList

/-! ### Scanning with a movable offset -/

/-- A source and a byte offset into it. -/
structure Scanner where
  /-- The name of the source. -/
  file : String
  /-- The whole text of the source. -/
  source : String
  /-- The offset at which the next token is looked for. -/
  offset : Nat := 0

namespace Scanner

/-- Moves the offset by `n` bytes, wherever that leads. -/
def skip (s : Scanner) (n : Nat) : Scanner := { s with offset := s.offset + n }

/-- Is nothing left to scan? -/
def atEnd (s : Scanner) : Bool := s.source.utf8ByteSize ≤ s.offset || maxOffset < s.offset

/-- The span of the next `n` bytes. -/
def spanAhead (s : Scanner) (n : Nat) : Span := .ofBytes s.file s.offset n

/-- The cursor at the offset, if a character begins there. -/
def cursor? (s : Scanner) : Option Cursor :=
  (dropBytes? s.offset s.source.toList).map fun text => ⟨s.file, s.offset, text⟩

/-- The text from the offset on. -/
def remainder? (s : Scanner) : Option String :=
  s.cursor?.map fun c => String.ofList c.text

/-- Reads one token, and gives it with the scanner behind it. -/
def next? (s : Scanner) : Option (Token × Scanner) :=
  if s.atEnd then some (.eof (.ofByte s.file s.offset), s)
  else s.cursor?.map fun c => (c.next.1, { s with offset := c.next.2.offset })

end Scanner

end LetFn
