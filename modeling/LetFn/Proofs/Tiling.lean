/-
LetFn/Proofs/Tiling.lean

The tokens of a source tile it, however long it is.

A source falls into lexemes, one behind the other.  Scanning stops at its
end, or at the first boundary between two lexemes that lies beyond the
greatest offset (`StopsAt`).  Up to there, every token stands in the source
where its span says, with its own text, and between two tokens there is
nothing but blanks and comments (`Vacant`).

`lexeme_induction` goes through a text lexeme by lexeme, `stream_induction` does
so with its tokens, and `Tiled` is what it finds: a gap and a token, again and
again, and a last gap.
A scanner that holds a byte offset looks for lexemes at boundaries only, and
a character begins at each of them (`IsBoundary.exists_append`), so that it
never fails (`Cursor.Within.pull?`).

Main statement: `tokenize_tiles`.
-/
import LetFn.Proofs.Scanning

namespace LetFn

open LetFn.Text (byteCount byteCount_append dropBytes? isBlank)

variable {file : String} {offset stop m n : Nat}
variable {x : Char} {xs text gap rest : List Char}
variable {ts : List Token} {t : Token}

/-! ### Places in a text -/

/-- Only no characters take no bytes. -/
theorem Text.eq_nil_of_byteCount (h : byteCount text = 0) : text = [] := by
  cases text with
  | nil => rfl
  | cons c cs =>
    have := c.utf8Size_pos
    rw [Text.byteCount_cons] at h
    omega

/-- The piece stands in the text at byte `n`. -/
def StandsAt (text piece : List Char) (n : Nat) : Prop :=
  ∃ front rest, text = front ++ piece ++ rest ∧ byteCount front = n

/-- The byte behind the text of a token. -/
def Token.finish (t : Token) : Nat := t.span.start.offset + t.text.utf8ByteSize

theorem Token.start_lt_finish (t : Token) (h : t.text ≠ "") : t.span.start.offset < t.finish :=
  Nat.lt_add_of_pos_right (Nat.pos_of_ne_zero (mt String.utf8ByteSize_eq_zero_iff.mp h))

/-- The token stands in the text where its span says.  Its start is a byte of
the text; its end is one as well, unless that is too large to be recorded. -/
structure Token.StandsIn (t : Token) (file : String) (text : List Char) : Prop where
  start_le : t.span.start.offset ≤ maxOffset
  span : t.span = ⟨⟨t.span.start.offset, file⟩, .ofByte file t.finish⟩
  standsAt : StandsAt text t.text.toList t.span.start.offset

/-- Blanks and comments, with `rest` behind them.  A comment runs to the end
of its line, or of the text. -/
inductive IsFiller (rest : List Char) : List Char → Prop
  | nil : IsFiller rest []
  | blank {c cs} : isBlank c → IsFiller rest cs → IsFiller rest (c :: cs)
  | comment {line cs} : '\n' ∉ line → (∀ c ∈ (cs ++ rest).head?, c = '\n') →
      IsFiller rest cs → IsFiller rest ('/' :: '/' :: (line ++ cs))

/-- There are only blanks and comments between bytes `m` and `n` of the text. -/
def Vacant (text : List Char) (m n : Nat) : Prop :=
  ∃ front gap rest, text = front ++ gap ++ rest ∧ byteCount front = m ∧
    m + byteCount gap = n ∧ IsFiller rest gap

/-- Byte `n` lies where a lexeme of the text begins, or where the last one ends. -/
inductive IsBoundary : List Char → Nat → Prop
  | start (text : List Char) : IsBoundary text 0
  | behind {x : Char} {xs rest : List Char} {n : Nat} :
      x :: xs = (Lexeme.first x xs).text ++ rest → IsBoundary rest n →
      IsBoundary (x :: xs) ((Lexeme.first x xs).size + n)

/-- Scanning of a text that begins at byte `offset` stops at byte `stop`: at
the end of the text, or at the first boundary beyond the greatest offset. -/
structure StopsAt (offset : Nat) (text : List Char) (stop : Nat) : Prop where
  boundary : ∃ n, IsBoundary text n ∧ stop = offset + n
  exhausted : stop = offset + byteCount text ∨ maxOffset < stop
  first : ∀ n, IsBoundary text n → offset + n < stop → offset + n ≤ maxOffset

/-! ### Lexeme by lexeme -/

/-- A text has the bytes of its first lexeme, and those of what is behind it. -/
theorem byteCount_first (hrest : x :: xs = (Lexeme.first x xs).text ++ rest) :
    byteCount (x :: xs) = (Lexeme.first x xs).size + byteCount rest := by
  rw [hrest, byteCount_append]
  rfl

namespace Cursor

theorem past_first (file : String) (offset : Nat)
    (hrest : x :: xs = (Lexeme.first x xs).text ++ rest) :
    past ⟨file, offset, x :: xs⟩ (Lexeme.first x xs) =
      ⟨file, offset + (Lexeme.first x xs).size, rest⟩ := by
  rw [hrest]
  exact past_lexeme

theorem exists_past (file : String) (offset : Nat) (x : Char) (xs : List Char) :
    let l := Lexeme.first x xs
    ∃ rest, x :: xs = l.text ++ rest ∧
      past ⟨file, offset, x :: xs⟩ l = ⟨file, offset + l.size, rest⟩ := by
  intro l
  obtain ⟨rest, hrest⟩ := Lexeme.text_first_isPrefix x xs
  exact ⟨rest, hrest.symm, past_first file offset hrest.symm⟩

theorem last_stream (c : Cursor) : c.stream.last = c.next.2.stream.last :=
  congrArg (·.last) c.advance_stream

theorem stream_of_ended (file : String) (h : text = [] ∨ maxOffset < offset) :
    (stream ⟨file, offset, text⟩).pending = [] ∧
      (stream ⟨file, offset, text⟩).last = .eof (.ofByte file offset) := by
  -- the text has come to its end, or the offset is too large
  have hnext : (next ⟨file, offset, text⟩).1 = .eof (.ofByte file offset) := by
    rcases h with h | h
    · exact congrArg Prod.fst (next_of_text_nil h)
    · exact congrArg Prod.fst (next_of_maxOffset_lt h)
  have hpending := pending_stream_of_eof (c := ⟨file, offset, text⟩) (by rw [hnext]; rfl)
  have hcurrent := current_stream ⟨file, offset, text⟩
  rw [TokenStream.current, hpending, hnext] at hcurrent
  exact ⟨hpending, hcurrent⟩

theorem stream_of_silent (hle : offset ≤ maxOffset)
    (hk : (Lexeme.first x xs).tokenKind? = none) :
    stream ⟨file, offset, x :: xs⟩ =
      stream (past ⟨file, offset, x :: xs⟩ (Lexeme.first x xs)) := by
  have hnext : next ⟨file, offset, x :: xs⟩ =
      next (past ⟨file, offset, x :: xs⟩ (Lexeme.first x xs)) := by
    rw [next]
    simp only [hle, if_true, hk]
  ext1
  · exact pending_stream_congr hnext
  · rw [last_stream, hnext, ← last_stream]

theorem stream_of_token {kind : Kind} (file : String) (hle : offset ≤ maxOffset)
    (hk : (Lexeme.first x xs).tokenKind? = some kind) :
    let c : Cursor := ⟨file, offset, x :: xs⟩
    let later := stream (c.past (Lexeme.first x xs))
    c.stream.pending = c.tokenOf kind (Lexeme.first x xs) :: later.pending ∧
      c.stream.last = later.last := by
  intro c later
  have hnext : c.next = (c.tokenOf kind (Lexeme.first x xs), c.past (Lexeme.first x xs)) := by
    rw [next]
    simp only [c, hle, if_true, hk]
  -- a lexeme never makes the end of a source
  have hne : c.next.1.kind ≠ .eof := by
    rw [hnext]
    exact fun he => Lexeme.tokenKind?_first_ne_eof x xs (hk.trans (congrArg some he))
  rw [pending_stream hne, last_stream, hnext]
  exact ⟨rfl, rfl⟩

/-- What is true of a text that is not scanned, and of a text if it is true of
what stands behind its first lexeme, is true of every text. -/
theorem lexeme_induction {motive : Nat → List Char → Prop}
    (ended : ∀ {offset text}, text = [] ∨ maxOffset < offset → motive offset text)
    (lexeme : ∀ {offset x xs rest}, x :: xs = (Lexeme.first x xs).text ++ rest →
      offset ≤ maxOffset → motive (offset + (Lexeme.first x xs).size) rest →
      motive offset (x :: xs))
    (offset : Nat) (text : List Char) : motive offset text := by
  -- every lexeme uses up some text
  induction hn : text.length using Nat.strongRecOn generalizing offset text with
  | ind n ih =>
    subst hn
    by_cases hend : text = [] ∨ maxOffset < offset
    · exact ended hend
    · obtain ⟨hne, hle⟩ := not_or.mp hend
      obtain ⟨x, xs, rfl⟩ := List.exists_cons_of_ne_nil hne
      obtain ⟨rest, hrest⟩ := Lexeme.text_first_isPrefix x xs
      have hlt : rest.length < (x :: xs).length := by
        have := List.length_pos_iff.mpr (Lexeme.text_first_ne_nil x xs)
        rw [← hrest, List.length_append]
        omega
      exact lexeme hrest.symm (Nat.not_lt.mp hle) (ih _ hlt _ rest rfl)

/-- What is true of a text that is not scanned, and can be carried over from
what stands behind a lexeme to the text that begins with it, is true of every
text with its tokens. -/
theorem stream_induction {motive : Nat → List Char → List Token → Token → Prop}
    (ended : ∀ {offset text}, text = [] ∨ maxOffset < offset →
      motive offset text [] (.eof (.ofByte file offset)))
    (silent : ∀ {offset x xs rest ts last}, x :: xs = (Lexeme.first x xs).text ++ rest →
      offset ≤ maxOffset → (Lexeme.first x xs).tokenKind? = none →
      motive (offset + (Lexeme.first x xs).size) rest ts last → motive offset (x :: xs) ts last)
    (token : ∀ {offset x xs rest ts last kind}, x :: xs = (Lexeme.first x xs).text ++ rest →
      offset ≤ maxOffset → (Lexeme.first x xs).tokenKind? = some kind →
      motive (offset + (Lexeme.first x xs).size) rest ts last →
      motive offset (x :: xs)
        (tokenOf ⟨file, offset, x :: xs⟩ kind (Lexeme.first x xs) :: ts) last)
    (offset : Nat) (text : List Char) :
    motive offset text (stream ⟨file, offset, text⟩).pending
      (stream ⟨file, offset, text⟩).last := by
  induction offset, text using lexeme_induction with
  | ended hend =>
    obtain ⟨hpending, hlast⟩ := stream_of_ended file hend
    rw [hpending, hlast]
    exact ended hend
  | @lexeme offset x xs rest hrest hle ih =>
    have hpast := past_first file offset hrest
    -- the lexeme is passed over, or it is the first token
    rcases hk : (Lexeme.first x xs).tokenKind? with - | kind
    · rw [stream_of_silent hle hk, hpast]
      exact silent hrest hle hk ih
    · obtain ⟨hpending, hlast⟩ := stream_of_token file hle hk
      rw [hpending, hlast, hpast]
      exact token hrest hle hk ih

end Cursor

/-! ### Where scanning stops -/

theorem StopsAt.ended (h : text = [] ∨ maxOffset < offset) : StopsAt offset text offset where
  boundary := ⟨0, .start text, rfl⟩
  exhausted := by
    rcases h with rfl | h
    · exact .inl rfl
    · exact .inr h
  first n _ hlt := absurd hlt (Nat.not_lt.mpr (Nat.le_add_right offset n))

/-- A boundary stands before the first lexeme, or behind it. -/
theorem IsBoundary.cases {x : Char} {xs rest : List Char} (h : IsBoundary (x :: xs) n)
    (hrest : x :: xs = (Lexeme.first x xs).text ++ rest) :
    n = 0 ∨ ∃ m, IsBoundary rest m ∧ n = (Lexeme.first x xs).size + m := by
  cases h with
  | start => exact .inl rfl
  | @behind _ _ rest' m hrest' hm =>
    obtain rfl : rest' = rest := List.append_cancel_left (hrest'.symm.trans hrest)
    exact .inr ⟨m, hm, rfl⟩

theorem StopsAt.behind (hrest : x :: xs = (Lexeme.first x xs).text ++ rest)
    (hle : offset ≤ maxOffset) (h : StopsAt (offset + (Lexeme.first x xs).size) rest stop) :
    StopsAt offset (x :: xs) stop where
  boundary := by
    obtain ⟨n, hn, rfl⟩ := h.boundary
    exact ⟨_, .behind hrest hn, Nat.add_assoc ..⟩
  exhausted := by
    rw [byteCount_first hrest, ← Nat.add_assoc]
    exact h.exhausted
  first n hn hlt := by
    -- the boundary stands before the lexeme, or lies in what is behind it
    rcases hn.cases hrest with rfl | ⟨m, hm, rfl⟩
    · exact hle
    · rw [← Nat.add_assoc] at hlt ⊢
      exact h.first m hm hlt

/-- A character begins at every boundary, or the text ends there. -/
theorem IsBoundary.exists_append (h : IsBoundary text n) :
    ∃ front rest, text = front ++ rest ∧ byteCount front = n := by
  induction h with
  | start text => exact ⟨[], text, rfl, rfl⟩
  | @behind x xs rest n hrest _ ih =>
    obtain ⟨front, rest', rfl, rfl⟩ := ih
    refine ⟨(Lexeme.first x xs).text ++ front, rest', ?_, byteCount_append ..⟩
    rw [hrest, List.append_assoc]

/-- Scanning stops within the text. -/
theorem StopsAt.le (h : StopsAt offset text stop) : stop ≤ offset + byteCount text := by
  obtain ⟨n, hn, rfl⟩ := h.boundary
  obtain ⟨front, rest, rfl, rfl⟩ := hn.exists_append
  rw [byteCount_append]
  exact Nat.add_le_add_left (Nat.le_add_right ..) offset

/-! ### Gaps -/

theorem IsFiller.blanks (hcs : ∀ c ∈ xs, isBlank c) (h : IsFiller rest gap) :
    IsFiller rest (xs ++ gap) := by
  induction xs with
  | nil => exact h
  | cons c cs ih =>
    obtain ⟨hc, hcs⟩ := List.forall_mem_cons.mp hcs
    exact .blank hc (ih hcs)

/-- What a run stops before is of another kind. -/
theorem head?_of_takeWhile_append {p : Char → Bool} (h : xs = xs.takeWhile p ++ rest) :
    ∀ c ∈ rest.head?, ¬ p c := by
  have hrest : rest = xs.dropWhile p :=
    List.append_cancel_left (h.symm.trans List.takeWhile_append_dropWhile.symm)
  intro c hc
  have hne : xs.dropWhile p ≠ [] := by
    rintro hnil
    rw [hrest, hnil] at hc
    cases hc
  rw [hrest, List.head?_eq_some_head hne, Option.mem_some_iff] at hc
  rw [← hc, List.head_dropWhile_not p hne]
  exact Bool.false_ne_true

/-- A lexeme that makes no token is filler. -/
theorem IsFiller.lexeme (hk : (Lexeme.first x xs).tokenKind? = none)
    (hrest : x :: xs = (Lexeme.first x xs).text ++ (gap ++ rest)) (h : IsFiller rest gap) :
    IsFiller rest ((Lexeme.first x xs).text ++ gap) := by
  -- by the class of the lexeme: only blanks and comments make no token
  revert hk hrest
  unfold Lexeme.first
  split
  · exact nofun
  split
  · exact nofun
  split
  · next hx =>
    intro _ _
    refine .blanks (List.forall_mem_cons.mpr ⟨hx, fun c hc => ?_⟩) h
    exact List.all_eq_true.mp List.all_takeWhile c hc
  split
  · next hx =>
    -- the run of a comment stops before a newline, or at the end
    intro _ hrest
    obtain ⟨rfl, hhead⟩ : x = '/' ∧ xs.head? = some '/' := by simpa using hx
    have hbehind := head?_of_takeWhile_append (List.cons.inj hrest).2
    obtain ⟨ys, rfl⟩ := List.head?_eq_some_iff.mp hhead
    refine .comment ?_ (fun c hc => ?_) h
    · intro hmem
      simpa using List.all_eq_true.mp List.all_takeWhile _ hmem
    · simpa using hbehind c hc
  split
  · exact nofun
  · exact nofun

/-! ### Tilings -/

/-- What scanning makes of a text that stands behind `front`: gaps and tokens
in turn, and a last gap, which ends at byte `stop`. -/
inductive Tiled (file : String) : List Char → List Char → List Token → Nat → Prop
  | done {front gap rest : List Char} : IsFiller rest gap →
      Tiled file front (gap ++ rest) [] (byteCount (front ++ gap))
  | token {front gap word rest : List Char} {kind : Kind} {ts : List Token} {stop : Nat} :
      IsFiller (word ++ rest) gap → word ≠ [] → byteCount (front ++ gap) ≤ maxOffset →
      Tiled file (front ++ gap ++ word) rest ts stop →
      Tiled file front (gap ++ (word ++ rest))
        (⟨kind, String.ofList word, .ofBytes file (byteCount (front ++ gap)) (byteCount word)⟩ ::
          ts) stop

variable {front : List Char}

/-- A lexeme that makes no token is part of the first gap. -/
theorem Tiled.silent (hk : (Lexeme.first x xs).tokenKind? = none)
    (hrest : x :: xs = (Lexeme.first x xs).text ++ rest)
    (h : Tiled file (front ++ (Lexeme.first x xs).text) rest ts stop) :
    Tiled file front (x :: xs) ts stop := by
  rw [hrest]
  -- the first gap becomes longer by the lexeme
  cases h with
  | done hgap =>
    rw [← List.append_assoc, List.append_assoc front]
    exact .done (hgap.lexeme hk hrest)
  | token hgap hne hle hlater =>
    rw [List.append_assoc front] at hle hlater ⊢
    rw [← List.append_assoc]
    exact .token (hgap.lexeme hk hrest) hne hle hlater

/-- A lexeme that makes a token, with no gap before it. -/
theorem Tiled.lexeme {kind : Kind} (hle : byteCount front ≤ maxOffset)
    (hrest : x :: xs = (Lexeme.first x xs).text ++ rest)
    (h : Tiled file (front ++ (Lexeme.first x xs).text) rest ts stop) :
    Tiled file front (x :: xs)
      (Cursor.tokenOf ⟨file, byteCount front, x :: xs⟩ kind (Lexeme.first x xs) :: ts) stop := by
  rw [← List.append_nil front] at hle h
  -- a token with an empty gap in front
  have key := @Tiled.token file front [] _ rest kind ts stop .nil (Lexeme.text_first_ne_nil x xs)
    hle h
  rwa [List.append_nil, List.nil_append, ← hrest] at key

/-- Every text is tiled by its tokens, up to where scanning stops. -/
theorem tiled_stream (file : String) (offset : Nat) (text : List Char) :
    ∃ stop, StopsAt offset text stop ∧
      (Cursor.stream ⟨file, offset, text⟩).last = .eof (.ofByte file stop) ∧
      ∀ front, byteCount front = offset →
        Tiled file front text (Cursor.stream ⟨file, offset, text⟩).pending stop := by
  -- lexeme by lexeme; what is in front grows as the offset does
  apply Cursor.stream_induction (motive := fun offset text ts last =>
    ∃ stop, StopsAt offset text stop ∧ last = .eof (.ofByte file stop) ∧
      ∀ front, byteCount front = offset → Tiled file front text ts stop)
  case ended =>
    rintro offset text hend
    refine ⟨offset, .ended hend, rfl, ?_⟩
    rintro front rfl
    have key : Tiled file front text [] (byteCount (front ++ [])) := Tiled.done .nil
    rwa [List.append_nil] at key
  case silent =>
    rintro offset x xs rest ts last hrest hle hk ⟨stop, hstop, hlast, htiled⟩
    refine ⟨stop, hstop.behind hrest hle, hlast, ?_⟩
    rintro front rfl
    exact .silent hk hrest (htiled _ (byteCount_append ..))
  case token =>
    rintro offset x xs rest ts last kind hrest hle hk ⟨stop, hstop, hlast, htiled⟩
    refine ⟨stop, hstop.behind hrest hle, hlast, ?_⟩
    rintro front rfl
    exact .lexeme hle hrest (htiled _ (byteCount_append ..))

/-- A source whose offsets can all be recorded is scanned to its end. -/
theorem TokenStream.last_ofSource (file : String) {source : String}
    (hsize : source.utf8ByteSize ≤ maxOffset) :
    (TokenStream.ofSource file source).last = .eof (.ofByte file source.utf8ByteSize) := by
  obtain ⟨stop, hstop, hlast, -⟩ := tiled_stream file 0 source.toList
  have hle := hstop.le
  rw [Nat.zero_add, Text.byteCount_toList] at hle
  -- it cannot have stopped beyond the greatest offset
  have hend : stop = source.utf8ByteSize := by
    rcases hstop.exhausted with hend | hlt
    · rwa [Nat.zero_add, Text.byteCount_toList] at hend
    · omega
  rw [← hend]
  exact hlast

/-! ### What a tiling says of its tokens -/

/-- The byte behind a token whose start could be recorded. -/
theorem Token.finish_ofBytes {kind : Kind} {word : List Char} (h : n ≤ maxOffset) :
    Token.finish ⟨kind, String.ofList word, .ofBytes file n (byteCount word)⟩ =
      n + byteCount word := by
  rw [Token.finish, Text.utf8ByteSize_ofList]
  exact congrArg (· + byteCount word) (saturate_of_le h)

namespace Tiled

/-- Every token stands where its span says, behind what is in front. -/
theorem standsIn (h : Tiled file front text ts stop) :
    ∀ t ∈ ts, t.text ≠ "" ∧ byteCount front ≤ t.span.start.offset ∧
      t.StandsIn file (front ++ text) := by
  induction h with
  | done => exact List.forall_mem_nil _
  | @token front gap word rest kind ts stop _ hne hle _ ih =>
    have hstart : saturate (byteCount (front ++ gap)) = byteCount (front ++ gap) :=
      saturate_of_le hle
    refine List.forall_mem_cons.mpr ⟨⟨?_, ?_, saturate_le _, ?_, ?_⟩, fun t ht => ?_⟩
    · simpa [String.ext_iff] using hne
    · show _ ≤ saturate _
      rw [hstart, byteCount_append]
      exact Nat.le_add_right ..
    · rw [Token.finish_ofBytes hle]
      rfl
    · exact ⟨front ++ gap, rest, by simp, hstart.symm⟩
    · -- a later token stands behind the gap and the word
      obtain ⟨htext, hle, hstands⟩ := ih t ht
      rw [byteCount_append, byteCount_append] at hle
      refine ⟨htext, by omega, ?_⟩
      simpa using hstands

/-- Tokens stand one behind the other. -/
theorem pairwise (h : Tiled file front text ts stop) :
    ts.Pairwise fun t u => t.finish ≤ u.span.start.offset := by
  induction h with
  | done => exact .nil
  | @token front gap word rest kind ts stop _ _ hle hlater ih =>
    refine .cons (fun u hu => ?_) ih
    obtain ⟨-, hstart, -⟩ := hlater.standsIn u hu
    rw [byteCount_append] at hstart
    rwa [Token.finish_ofBytes hle]

/-- Nothing stands beyond the place where scanning stops. -/
theorem finish_le (h : Tiled file front text ts stop) :
    byteCount front ≤ stop ∧ ∀ t ∈ ts, t.finish ≤ stop := by
  induction h with
  | @done front gap rest _ =>
    rw [byteCount_append]
    exact ⟨Nat.le_add_right .., List.forall_mem_nil _⟩
  | @token front gap word rest kind ts stop _ _ hle _ ih =>
    obtain ⟨hfront, hts⟩ := ih
    rw [byteCount_append] at hfront
    refine ⟨?_, List.forall_mem_cons.mpr ⟨by rwa [Token.finish_ofBytes hle], hts⟩⟩
    rw [byteCount_append] at hfront
    omega

/-- Around the tokens there are gaps. -/
theorem vacant (h : Tiled file front text ts stop) :
    ∀ gap ∈ (byteCount front :: ts.map Token.finish).zip (ts.map (·.span.start.offset) ++ [stop]),
      Vacant (front ++ text) gap.1 gap.2 := by
  induction h with
  | @done front gap rest hgap =>
    rintro _ (_ | ⟨_, ⟨⟩⟩)
    refine ⟨front, gap, rest, (List.append_assoc ..).symm, rfl, (byteCount_append ..).symm, hgap⟩
  | @token front gap word rest kind ts stop hgap _ hle hlater ih =>
    rw [List.map_cons, List.map_cons, Token.finish_ofBytes hle, ← byteCount_append]
    -- the gap before the first token, and those behind it
    refine List.forall_mem_cons.mpr ⟨?_, fun g hg => ?_⟩
    · refine ⟨front, gap, word ++ rest, (List.append_assoc ..).symm, rfl, ?_, hgap⟩
      exact (byteCount_append ..).symm.trans (saturate_of_le hle).symm
    · simpa using ih g hg

end Tiled

/-! ### Scanning by offset -/

/-- The first `n` tokens that a scanner gives, and the scanner behind them. -/
def Scanner.pull? (s : Scanner) : Nat → Option (List Token × Scanner)
  | 0 => some ([], s)
  | n + 1 => do
    let (t, later) ← s.next?
    let (ts, last) ← later.pull? n
    return (t :: ts, last)

variable {c : Cursor} {source : String}

/-- The unread text of the cursor stands in the source at its offset. -/
def Cursor.Within (c : Cursor) (source : String) : Prop :=
  dropBytes? c.offset source.toList = some c.text

theorem Cursor.within_ofSource (file source : String) :
    (Cursor.ofSource file source).Within source := by
  cases htext : source.toList <;> simp [Cursor.Within, Cursor.ofSource, dropBytes?, htext]

/-- A scanner that stands at a boundary finds the text behind it, and all of it. -/
theorem IsBoundary.exists_remainder (h : IsBoundary source.toList n) (file : String) :
    ∃ front rest, source = front ++ rest ∧ front.utf8ByteSize = n ∧
      (Scanner.mk file source n).remainder? = some rest := by
  obtain ⟨front, rest, hsource, hfront⟩ := h.exists_append
  have hdrop : dropBytes? n source.toList = some rest :=
    Text.dropBytes?_eq_some_iff.mpr ⟨front, hsource, hfront⟩
  refine ⟨String.ofList front, String.ofList rest, ?_, ?_, ?_⟩
  · rw [← String.ofList_append, ← hsource, String.ofList_toList]
  · rw [Text.utf8ByteSize_ofList, hfront]
  · rw [Scanner.remainder?, Scanner.cursor?, hdrop]
    rfl

theorem Cursor.Within.past (h : c.Within source) (hc : c.text = x :: xs) :
    (c.past (Lexeme.first x xs)).Within source := by
  obtain ⟨file, offset, text⟩ := c
  obtain rfl : text = x :: xs := hc
  obtain ⟨rest, hrest, hpast⟩ := exists_past file offset x xs
  obtain ⟨front, hsource, hfront⟩ := Text.dropBytes?_eq_some_iff.mp h
  rw [hpast]
  refine Text.dropBytes?_eq_some_iff.mpr ⟨front ++ (Lexeme.first x xs).text, ?_, ?_⟩
  · rw [hsource, hrest, List.append_assoc]
  · rw [byteCount_append, hfront]
    rfl

theorem Cursor.Within.next (h : c.Within source) : c.next.2.Within source := by
  fun_induction Cursor.next c with
  | case1 c => exact h
  | case2 c x xs hc hle l kind hk => exact h.past hc
  | case3 c x xs hc hle l hk ih => exact ih (h.past hc)
  | case4 c => exact h

theorem Cursor.file_next (c : Cursor) : c.next.2.file = c.file := by
  fun_induction Cursor.next c with
  | case1 c => rfl
  | case2 c x xs hc hle l kind hk => rfl
  | case3 c x xs hc hle l hk ih => exact ih
  | case4 c => rfl

/-- A scanner whose offset is that of a cursor reads the same token, and goes
on at the offset of the cursor behind it. -/
theorem Cursor.Within.next? (h : c.Within source) :
    (Scanner.mk c.file source c.offset).next? =
      some (c.next.1, ⟨c.file, source, c.next.2.offset⟩) := by
  rw [Scanner.next?]
  split
  · next hend =>
    have hnext : c.next = (c.endToken, c) := by
      -- the scanner stops where the cursor does: at the end, or beyond the greatest offset
      rcases Bool.or_eq_true_iff.mp hend with hsize | hlt
      · apply next_of_text_nil
        obtain ⟨front, hsource, hfront⟩ := Text.dropBytes?_eq_some_iff.mp h
        have hle := of_decide_eq_true hsize
        rw [← Text.byteCount_toList, hsource, byteCount_append, hfront] at hle
        exact Text.eq_nil_of_byteCount (Nat.le_zero.mp (Nat.le_of_add_le_add_left hle))
      · exact next_of_maxOffset_lt (of_decide_eq_true hlt)
    rw [hnext]
    rfl
  · rw [Scanner.cursor?, show dropBytes? c.offset source.toList = some c.text from h]
    rfl

/-- What stands in a stream, and its end again and again. -/
theorem TokenStream.take_succ (s : TokenStream) (n : Nat) :
    (s.toList ++ List.replicate (n + 1) s.last).take (n + 1) =
      s.current :: (s.advance.toList ++ List.replicate n s.last).take n := by
  rcases h : s.pending with - | ⟨t, rest⟩
  · simp [toList, current, h, List.replicate_succ]
  · -- the list is long enough, so that one more end behind it is not taken
    have hle : n ≤ (rest ++ [s.last] ++ List.replicate n s.last).length := by
      simp only [List.length_append, List.length_replicate]
      omega
    simp only [toList, current, h, pending_advance, last_advance, List.tail_cons, List.head?_cons,
      Option.getD_some, List.cons_append, List.take_succ_cons, List.replicate_succ']
    rw [← List.append_assoc, List.take_append_of_le_length hle]

/-- Every pull succeeds. -/
theorem Cursor.Within.pull? (h : c.Within source) (n : Nat) :
    ∃ s, (Scanner.mk c.file source c.offset).pull? n =
      some ((c.stream.toList ++ List.replicate n c.stream.last).take n, s) := by
  -- on the number of tokens
  induction n generalizing c with
  | zero => exact ⟨_, rfl⟩
  | succ n ih =>
    obtain ⟨s, hs⟩ := ih h.next
    rw [file_next, ← advance_stream, TokenStream.last_advance] at hs
    refine ⟨s, ?_⟩
    rw [TokenStream.take_succ, current_stream, Scanner.pull?, h.next?]
    simp only [Option.bind_eq_bind, Option.bind_some, hs]
    rfl

/-! ### The tokens of a source -/

/-- **The tokens of a source tile it**, up to where scanning stops.  There is
one `eof`, and it is the last token and stands there.  Every other token
stands in the source where its span says, not at the recorded offset only but
at that very byte, and behind the tokens before it; and all around them there
are nothing but blanks and comments.  At each boundary between lexemes the text
from there on can be looked up; and every token can be taken, with the `eof`
again and again. -/
theorem tokenize_tiles (file source : String) :
    ∃ ts stop, tokenize file source = ts ++ [.eof (.ofByte file stop)] ∧
      StopsAt 0 source.toList stop ∧
      (∀ t ∈ ts, t.kind ≠ .eof ∧ t.text ≠ "" ∧ t.StandsIn file source.toList) ∧
      (ts.Pairwise fun t u => t.span.start.offset < u.span.start.offset ∧
        t.finish ≤ u.span.start.offset) ∧
      (∀ gap ∈ (0 :: ts.map Token.finish).zip (ts.map (·.span.start.offset) ++ [stop]),
        Vacant source.toList gap.1 gap.2) ∧
      (∀ n, IsBoundary source.toList n →
        ∃ front rest, source = front ++ rest ∧ front.utf8ByteSize = n ∧
          (Scanner.mk file source n).remainder? = some rest) ∧
      ∀ n, ∃ s, (Scanner.mk file source 0).pull? n =
        some ((tokenize file source ++ List.replicate n (Token.eof (.ofByte file stop))).take n,
          s) := by
  let c := Cursor.ofSource file source
  obtain ⟨stop, hstop, hlast, htiled⟩ := tiled_stream file 0 source.toList
  replace htiled := htiled [] rfl
  have hfile : tokenize file source = c.stream.pending ++ [.eof (.ofByte file stop)] := by
    rw [tokenize, TokenStream.toList, ← hlast]
    rfl
  refine ⟨c.stream.pending, stop, hfile, hstop, fun t ht => ?_, ?_, htiled.vacant, fun n hn => ?_,
    fun n => ?_⟩
  · obtain ⟨htext, -, hstands⟩ := htiled.standsIn t ht
    exact ⟨c.stream.kind_pending t ht, htext, hstands⟩
  · -- no token is empty, so starts are apart where tokens are
    refine htiled.pairwise.imp_of_mem fun {t u} ht _ hle => ⟨Nat.lt_of_lt_of_le ?_ hle, hle⟩
    exact t.start_lt_finish (htiled.standsIn t ht).1
  · exact hn.exists_remainder file
  · obtain ⟨s, hs⟩ := (Cursor.within_ofSource file source).pull? n
    rw [show c.stream.last = _ from hlast] at hs
    exact ⟨s, hs⟩

end LetFn
