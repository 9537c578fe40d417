/-
LetFn/Proofs/Lines.lean

A source is scanned line by line.

A newline ends every lexeme but a run of blanks, which makes no token.  So
what stands in front of a newline has its tokens whatever stands behind it
(`stream_append_newline`), and what stands behind is scanned as if nothing
stood in front: the scanner keeps nothing but its offset, and a text further
on has the same tokens further on (`stream_shift`).

Main statement: `tokenize_append_newline`.
-/
import LetFn.Proofs.LongestMatch
import LetFn.Proofs.Relocation
import LetFn.Proofs.Tiling.Cutting

namespace LetFn

open LetFn.Text (byteCount byteCount_append byteCount_toList)

variable {file : String} {offset : Nat}
variable {x : Char} {xs rest : List Char}
variable {k : Kind}

/-! ### Further on -/

/-- The position `n` bytes further on. -/
def Position.shift (n : Nat) (p : Position) : Position := ⟨p.offset + n, p.file⟩

theorem Position.shift_ofByte {m n : Nat} (h : m + n ≤ maxOffset) :
    (Position.ofByte file m).shift n = .ofByte file (m + n) := by
  rw [ofByte, shift, ofByte, saturate_of_le (Nat.le_of_add_right_le h), saturate_of_le h]

namespace Cursor

theorem tokenOf_shift {c : Cursor} {l : Lexeme} (n : Nat) (h : c.offset + n + l.size ≤ maxOffset) :
    (c.tokenOf k l).relocate (Position.shift n) = { c with offset := c.offset + n }.tokenOf k l := by
  have hstop : c.offset + l.size + n ≤ maxOffset := by omega
  rw [tokenOf, tokenOf, Token.relocate, Span.relocate, Span.ofBytes, Span.ofBytes,
    Position.shift_ofByte (Nat.le_of_add_right_le h), Position.shift_ofByte hstop,
    Nat.add_right_comm]

/-- A text that stands further on has its tokens further on. -/
theorem stream_shift (file : String) (n offset : Nat) (text : List Char) :
    offset + n + byteCount text ≤ maxOffset →
      (stream ⟨file, offset + n, text⟩).pending =
          (stream ⟨file, offset, text⟩).pending.map (Token.relocate (Position.shift n)) ∧
        (stream ⟨file, offset + n, text⟩).last =
          (stream ⟨file, offset, text⟩).last.relocate (Position.shift n) := by
  -- lexeme by lexeme over the text; the two streams stand `n` bytes apart all the way
  apply stream_induction (motive := fun offset text ts last =>
    offset + n + byteCount text ≤ maxOffset →
      (stream ⟨file, offset + n, text⟩).pending = ts.map (Token.relocate (Position.shift n)) ∧
        (stream ⟨file, offset + n, text⟩).last = last.relocate (Position.shift n))
  case ended =>
    rintro offset text (rfl | hlt) hle
    · have hended : (stream ⟨file, offset + n, []⟩).pending = [] ∧
          (stream ⟨file, offset + n, []⟩).last = .eof (.ofByte file (offset + n)) :=
        stream_of_ended file (.inl rfl)
      rw [hended.1, hended.2, ← Position.shift_ofByte (Nat.le_of_add_right_le hle)]
      exact ⟨rfl, rfl⟩
    · -- the offsets do not run out, for the bound is on the whole text
      omega
  case silent =>
    intro offset x xs rest ts last hrest _ hk ih hle
    rw [byteCount_first hrest] at hle
    rw [stream_of_silent (by omega) hk, past_first file _ hrest, Nat.add_right_comm]
    exact ih (by omega)
  case token =>
    intro offset x xs rest ts last kind hrest _ hk ih hle
    rw [byteCount_first hrest] at hle
    have hoffset : offset + n ≤ maxOffset := by omega
    -- the token further on is the token here, moved by `n`
    obtain ⟨hpending, hlast⟩ := stream_of_token file hoffset hk
    rw [hpending, hlast, past_first file _ hrest, Nat.add_right_comm]
    obtain ⟨hpending', hlast'⟩ := ih (by omega)
    rw [hpending', hlast', List.map_cons, tokenOf_shift]
    · exact ⟨rfl, rfl⟩
    · show offset + n + (Lexeme.first x xs).size ≤ maxOffset
      omega

end Cursor

/-! ### A newline -/

/-- In front of a newline, a text goes on as it did, or with the newline. -/
theorem head?_append_newline (rest more : List Char) :
    ∀ c ∈ (rest ++ '\n' :: more).head?, c = '\n' ∨ rest.head? = some c := by
  intro c hc
  cases rest with
  | nil => exact .inl (Option.some.inj hc).symm
  | cons => exact .inr hc

/-- A lexeme that makes a token ends in front of a newline. -/
theorem Lexeme.first_append_newline (hk : (Lexeme.first x xs).tokenKind? = some k)
    (more : List Char) : Lexeme.first x (xs ++ '\n' :: more) = Lexeme.first x xs := by
  have hheads := heads_first x xs
  obtain ⟨rest, hrest⟩ := hheads.isPrefix
  rw [← hrest] at hheads
  -- the same lexeme heads the longer text, as a newline cannot make it go on
  have hfollows : (first x xs).Heads ((first x xs).text ++ (rest ++ '\n' :: more)) := by
    refine hheads.congr fun c hc => (head?_append_newline rest more c hc).imp_left ?_
    rintro rfl
    exact hheads.apartFrom_of_token hk (.inl rfl)
  rw [← List.append_assoc, hrest] at hfollows
  exact heads_iff.mp hfollows

namespace Cursor

/-- A lexeme that makes no token is passed over in front of a newline as well. -/
theorem stream_silent_append_newline (more : List Char)
    (hrest : x :: xs = (Lexeme.first x xs).text ++ rest)
    (hk : (Lexeme.first x xs).tokenKind? = none)
    (hle : offset + (Lexeme.first x xs).size ≤ maxOffset) :
    stream ⟨file, offset, x :: xs ++ '\n' :: more⟩ =
      stream ⟨file, offset + (Lexeme.first x xs).size, rest ++ '\n' :: more⟩ := by
  -- a comment may go on up to the newline, so the lexeme need not be the same:
  -- both are fillers, and lead to the same place
  have hgap : IsFiller rest ((Lexeme.first x xs).text ++ []) := IsFiller.nil.lexeme hk hrest
  rw [List.append_nil] at hgap
  rw [hrest, List.append_assoc]
  exact stream_filler (hgap.congr (head?_append_newline rest more)) hle

/-- A token stays as it is in front of a newline, since no token holds one. -/
theorem stream_token_append_newline (file : String) (more : List Char)
    (hrest : x :: xs = (Lexeme.first x xs).text ++ rest) (hle : offset ≤ maxOffset)
    (hk : (Lexeme.first x xs).tokenKind? = some k) :
    let later := stream ⟨file, offset + (Lexeme.first x xs).size, rest ++ '\n' :: more⟩
    (stream ⟨file, offset, x :: xs ++ '\n' :: more⟩).pending =
        tokenOf ⟨file, offset, x :: xs⟩ k (Lexeme.first x xs) :: later.pending ∧
      (stream ⟨file, offset, x :: xs ++ '\n' :: more⟩).last = later.last := by
  intro later
  have hfirst := Lexeme.first_append_newline hk more
  have hrest' : x :: (xs ++ '\n' :: more) =
      (Lexeme.first x (xs ++ '\n' :: more)).text ++ (rest ++ '\n' :: more) := by
    rw [hfirst, ← List.append_assoc, ← hrest, List.cons_append]
  obtain ⟨hpending, hlast⟩ := stream_of_token file hle (hfirst ▸ hk)
  rw [past_first file offset hrest', hfirst] at hpending hlast
  exact ⟨hpending, hlast⟩

/-- What stands in front of a newline has its tokens, and what stands behind
the newline has its own. -/
theorem stream_append_newline (file : String) (more : List Char) (offset : Nat)
    (text : List Char) :
    offset + byteCount text + 1 + byteCount more ≤ maxOffset →
      (stream ⟨file, offset, text ++ '\n' :: more⟩).pending =
          (stream ⟨file, offset, text⟩).pending ++
            (stream ⟨file, offset + byteCount text + 1, more⟩).pending ∧
        (stream ⟨file, offset, text ++ '\n' :: more⟩).last =
          (stream ⟨file, offset + byteCount text + 1, more⟩).last := by
  -- lexeme by lexeme over the text in front of the newline
  apply stream_induction (motive := fun offset text ts _ =>
    offset + byteCount text + 1 + byteCount more ≤ maxOffset →
      (stream ⟨file, offset, text ++ '\n' :: more⟩).pending =
          ts ++ (stream ⟨file, offset + byteCount text + 1, more⟩).pending ∧
        (stream ⟨file, offset, text ++ '\n' :: more⟩).last =
          (stream ⟨file, offset + byteCount text + 1, more⟩).last)
  case ended =>
    rintro offset text (rfl | hlt) hle
    · -- only the newline is left, and it is a blank
      have hstream : stream ⟨file, offset, '\n' :: more⟩ = stream ⟨file, offset + 1, more⟩ :=
        stream_of_isBlank rfl (Nat.le_of_add_right_le hle)
      rw [List.nil_append, hstream]
      exact ⟨rfl, rfl⟩
    · omega
  case silent =>
    intro offset x xs rest ts last hrest _ hk ih hle
    rw [byteCount_first hrest, ← Nat.add_assoc] at hle ⊢
    rw [stream_silent_append_newline more hrest hk (by omega)]
    exact ih hle
  case token =>
    intro offset x xs rest ts last kind hrest hle' hk ih hle
    rw [byteCount_first hrest, ← Nat.add_assoc] at hle ⊢
    obtain ⟨hpending, hlast⟩ := stream_token_append_newline file more hrest hle' hk
    obtain ⟨hpending', hlast'⟩ := ih hle
    rw [hpending, hlast, hpending', hlast']
    exact ⟨rfl, rfl⟩

end Cursor

/-! ### Sources -/

/-- **A source is scanned line by line.**  The tokens of a text, a newline and
another text are those of the first text, but for its end, and behind them
those of the second text, further on by the first text and the newline. -/
theorem tokenize_append_newline (file a b : String)
    (hsize : a.utf8ByteSize + 1 + b.utf8ByteSize < UInt32.size) :
    tokenize file (a ++ "\n" ++ b) =
      ((tokenize file a).filter fun t => t.kind ≠ .eof) ++
        (tokenize file b).map (Token.relocate (Position.shift (a.utf8ByteSize + 1))) := by
  have hle : a.utf8ByteSize + 1 + b.utf8ByteSize ≤ maxOffset := Nat.le_sub_one_of_lt hsize
  have htext : (a ++ "\n" ++ b).toList = a.toList ++ '\n' :: b.toList := by
    rw [String.toList_append, String.toList_append, List.append_assoc]
    rfl
  -- the tokens of both texts at their places in the whole
  obtain ⟨hpending, hlast⟩ := Cursor.stream_append_newline file b.toList 0 a.toList
    (by rwa [byteCount_toList, byteCount_toList, Nat.zero_add])
  -- those of the second text, moved back to its start
  obtain ⟨hpending', hlast'⟩ := Cursor.stream_shift file (a.utf8ByteSize + 1) 0 b.toList
    (by rwa [byteCount_toList, Nat.zero_add])
  rw [byteCount_toList, Nat.zero_add] at hpending hlast
  rw [Nat.zero_add] at hpending' hlast'
  rw [tokenize, tokenize, tokenize, TokenStream.filter_toList, TokenStream.ofSource,
    Cursor.ofSource, htext, TokenStream.toList, hpending, hlast, hpending', hlast',
    List.append_assoc, TokenStream.toList, List.map_append]
  rfl

/-- A comment ends with its line, and a mark does not go on in the next one. -/
theorem tokenize_append_newline_example :
    let a := "x = // half"
    let b := "= 1"
    a.utf8ByteSize + 1 + b.utf8ByteSize < UInt32.size ∧
      tokenize "shell" (a ++ "\n" ++ b) =
        ((tokenize "shell" a).filter fun t => t.kind ≠ .eof) ++
          (tokenize "shell" b).map (Token.relocate (Position.shift (a.utf8ByteSize + 1))) ∧
      (tokenize "shell" (a ++ "\n" ++ b)).map Token.piece =
        [(.identifier, "x"), (.assignment, "="), (.assignment, "="), (.number, "1"),
          (.eof, "EOF")] := by
  intro a b
  have hsize : a.utf8ByteSize + 1 + b.utf8ByteSize < UInt32.size := by decide +kernel
  exact ⟨hsize, tokenize_append_newline "shell" a b hsize, by decide +kernel⟩

end LetFn
