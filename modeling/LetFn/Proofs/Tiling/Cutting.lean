/-
LetFn/Proofs/Tiling/Cutting.lean

Cutting a stretch out of a source, from the start of a token to the end of a
token.

A token can be cut out because it depends on no more than one character behind
it (`Lexeme.Heads.congr`).  A word or a numeral goes on with that character or
not, and a mark may be the first half of another one.  So the token stays as it
is if the text behind it gives way to one that begins alike, or with a `)`, or
to nothing at all (`MayFollow`, `Begins.congr`); and blanks and comments stay
what they are if what is behind them begins alike, or with a newline.

Tokens of a source that stand one behind the other are made by a stretch of
its text (`Cut`).  Cut out, and put somewhere else that is not further back,
the stretch makes tokens with the same kinds and texts (`Portable`).  Not
further back, because text behind the greatest offset makes no tokens.

Main statements: `exists_behind` and `exists_cut`.
-/
import LetFn.Proofs.Layout
import LetFn.Proofs.Spans

namespace LetFn

open LetFn.Text (byteCount byteCount_append byteCount_cons isBlank)

variable {file : String} {offset : Nat}
variable {x : Char} {xs text rest rest' gap word : List Char}
variable {k : Kind}
variable {t : Token} {ts us : List Token}

/-! ### What a lexeme depends on -/

/-- Behind a token, `rest` may give way to `rest'`: it begins alike, or with a
`)`, or it is empty. -/
def MayFollow (rest rest' : List Char) : Prop :=
  ∀ c ∈ rest'.head?, c = ')' ∨ rest.head? = some c

theorem mayFollow_closing (rest : List Char) (n : Nat) :
    MayFollow rest (List.replicate n ')') := by
  intro c hc
  exact .inl (List.eq_of_mem_replicate (List.mem_of_mem_head? hc))

theorem MayFollow.of_head? (h : rest'.head? = rest.head?) : MayFollow rest rest' :=
  fun _ hc => .inr (h ▸ hc)

theorem MayFollow.append (h : MayFollow rest rest') (xs : List Char) :
    MayFollow (xs ++ rest) (xs ++ rest') := by
  cases xs with
  | nil => exact h
  | cons x xs => exact .of_head? rfl

/-- A lexeme that makes a token stays what it is. -/
theorem first_congr (htext : (Lexeme.first x (xs ++ rest)).text = x :: xs)
    (hk : (Lexeme.first x (xs ++ rest)).tokenKind? = some k) (hrest : MayFollow rest rest') :
    Lexeme.first x (xs ++ rest') = Lexeme.first x (xs ++ rest) := by
  have hheads := Lexeme.heads_first x (xs ++ rest)
  generalize Lexeme.first x (xs ++ rest) = l at htext hk hheads ⊢
  rw [← List.cons_append, ← htext] at hheads
  have hfollows : l.Heads (l.text ++ rest') := by
    refine hheads.congr fun c hc => (hrest c hc).imp_left ?_
    rintro rfl
    exact hheads.apartFrom_of_token hk (.inr rfl)
  rw [htext] at hfollows
  exact Lexeme.heads_iff.mp hfollows

/-- Blanks and comments stay what they are, also in front of a newline. -/
theorem IsFiller.congr (h : IsFiller rest gap)
    (hrest : ∀ c ∈ rest'.head?, c = '\n' ∨ rest.head? = some c) : IsFiller rest' gap := by
  induction h with
  | nil => exact .nil
  | blank hc _ ih => exact .blank hc ih
  | @comment line cs hline hend _ ih =>
    refine .comment hline ?_ ih
    cases cs with
    | nil => exact fun c hc => (hrest c hc).elim id (hend c)
    | cons c cs => exact hend

/-! ### One token after another -/

/-- The text begins with blanks and comments, and with a word behind them that
makes a token of the kind. -/
structure Begins (gap word rest : List Char) (k : Kind) : Prop where
  filler : IsFiller (word ++ rest) gap
  lexeme : ∃ x xs, word = x :: xs ∧ (Lexeme.first x (xs ++ rest)).text = word ∧
    (Lexeme.first x (xs ++ rest)).tokenKind? = some k

theorem Begins.ne_nil (h : Begins gap word rest k) : word ≠ [] := by
  obtain ⟨x, xs, rfl, -⟩ := h.lexeme
  exact List.cons_ne_nil x xs

theorem Begins.byteCount_pos (h : Begins gap word rest k) : 0 < byteCount word :=
  Nat.pos_of_ne_zero fun hzero => h.ne_nil (Text.eq_nil_of_byteCount hzero)

/-- The word by itself, with something else behind it. -/
theorem Begins.congr (h : Begins gap word rest k) (hrest : MayFollow rest rest') :
    Begins [] word rest' k := by
  obtain ⟨x, xs, rfl, htext, hk⟩ := h.lexeme
  have hfirst := first_congr htext hk hrest
  exact ⟨.nil, x, xs, rfl, hfirst ▸ htext, hfirst ▸ hk⟩

/-- From some bytes to others, with a gap between them. -/
theorem Span.cover_ofBytes (file : String) (start size gap size' : Nat) :
    (Span.ofBytes file start size).cover (.ofBytes file (start + size + gap) size') =
      .ofBytes file start (size + (gap + size')) := by
  rw [Span.ofBytes, Span.ofBytes, Span.ofBytes, Span.cover, Nat.add_assoc, Nat.add_assoc,
    Nat.add_assoc]

namespace Cursor

/-- The token of the word, behind the gap. -/
def wordToken (file : String) (offset : Nat) (word : List Char) (k : Kind) : Token :=
  ⟨k, String.ofList word, .ofBytes file offset (byteCount word)⟩

/-- The next token of a text, and what is behind it. -/
theorem exists_begins (h : (stream ⟨file, offset, text⟩).pending = t :: ts) :
    ∃ gap word rest k, text = gap ++ (word ++ rest) ∧ Begins gap word rest k ∧
      offset + byteCount gap ≤ maxOffset ∧
      t = wordToken file (offset + byteCount gap) word k ∧
      (stream ⟨file, offset + byteCount gap + byteCount word, rest⟩).pending = ts := by
  induction offset, text using lexeme_induction with
  | ended hend =>
    rw [(stream_of_ended file hend).1] at h
    cases h
  | @lexeme offset x xs rest hrest hle ih =>
    have hpast := past_first file offset hrest
    rcases hk : (Lexeme.first x xs).tokenKind? with - | kind
    · -- the lexeme is part of the gap
      rw [stream_of_silent hle hk, hpast] at h
      obtain ⟨gap, word, rest, k, rfl, hbegins, hle', rfl, hts⟩ := ih h
      refine ⟨(Lexeme.first x xs).text ++ gap, word, rest, k, ?_, ?_, ?_, ?_, ?_⟩
      · rw [hrest, List.append_assoc]
      · exact ⟨hbegins.filler.lexeme hk hrest, hbegins.lexeme⟩
      · rwa [byteCount_append, ← Nat.add_assoc]
      · rw [byteCount_append, ← Nat.add_assoc]
        rfl
      · rwa [byteCount_append, ← Nat.add_assoc]
    · -- the lexeme is the word
      obtain ⟨hpending, -⟩ := stream_of_token file hle hk
      rw [hpending, hpast] at h
      obtain ⟨rfl, hts⟩ := List.cons.inj h
      obtain ⟨y, ys, htext⟩ := List.exists_cons_of_ne_nil (Lexeme.text_first_ne_nil x xs)
      have hcons := hrest
      rw [htext] at hcons
      obtain ⟨rfl, rfl⟩ := List.cons.inj hcons
      exact ⟨[], _, rest, kind, hrest, ⟨.nil, x, ys, htext, rfl, hk⟩, hle, rfl, hts⟩

/-! ### Blanks, comments and words where they are wanted -/

/-- A lexeme that makes no token is passed over. -/
theorem stream_lexeme {c : LexemeClass} (hl : Lexeme.first x (xs ++ rest) = ⟨c, x :: xs⟩)
    (hk : (Lexeme.mk c (x :: xs)).tokenKind? = none) (hle : offset ≤ maxOffset) :
    stream ⟨file, offset, x :: xs ++ rest⟩ =
      stream ⟨file, offset + byteCount (x :: xs), rest⟩ := by
  rw [List.cons_append, stream_of_silent hle (hl ▸ hk), hl, ← List.cons_append, past_lexeme]

/-- Blanks are passed over, as far as they go. -/
theorem stream_dropWhile_isBlank (hx : isBlank x) (hle : offset ≤ maxOffset) :
    stream ⟨file, offset, x :: text⟩ =
      stream ⟨file, offset + byteCount (x :: text.takeWhile isBlank), text.dropWhile isBlank⟩ := by
  have hstream : stream ⟨file, offset, x :: text.takeWhile isBlank ++ text.dropWhile isBlank⟩ = _ :=
    stream_lexeme (first_of_isBlank hx) rfl hle
  rwa [List.cons_append, List.takeWhile_append_dropWhile] at hstream

theorem stream_of_isBlank (hx : isBlank x) (hle : offset + x.utf8Size ≤ maxOffset) :
    stream ⟨file, offset, x :: text⟩ = stream ⟨file, offset + x.utf8Size, text⟩ := by
  rw [stream_dropWhile_isBlank hx (Nat.le_of_add_right_le hle)]
  rcases text with - | ⟨c, text⟩
  · rfl
  · by_cases hc : isBlank c
    · -- the blanks that follow belong to the same lexeme
      rw [List.takeWhile_cons_of_pos hc, List.dropWhile_cons_of_pos hc,
        stream_dropWhile_isBlank hc hle, byteCount_cons, Nat.add_assoc]
    · rw [List.takeWhile_cons_of_neg hc, List.dropWhile_cons_of_neg hc]
      rfl

theorem stream_filler (h : IsFiller rest gap) (hle : offset + byteCount gap ≤ maxOffset) :
    stream ⟨file, offset, gap ++ rest⟩ = stream ⟨file, offset + byteCount gap, rest⟩ := by
  induction h generalizing offset with
  | nil => rfl
  | @blank c cs hc _ ih =>
    rw [byteCount_cons, ← Nat.add_assoc] at hle ⊢
    rw [List.cons_append, stream_of_isBlank hc (Nat.le_of_add_right_le hle), ih hle]
  | @comment line cs hline hend _ ih =>
    have hle' := Nat.le_of_add_right_le hle
    rw [← List.cons_append, ← List.cons_append, byteCount_append, ← Nat.add_assoc] at hle ⊢
    rw [List.append_assoc, stream_lexeme (first_comment hline hend) rfl hle', ih hle]

/-- The token of a word that stands behind a gap. -/
theorem pending_word (h : Begins gap word rest k) (hle : offset + byteCount gap ≤ maxOffset) :
    (stream ⟨file, offset, gap ++ (word ++ rest)⟩).pending =
      wordToken file (offset + byteCount gap) word k ::
        (stream ⟨file, offset + byteCount gap + byteCount word, rest⟩).pending := by
  obtain ⟨x, xs, rfl, htext, hk⟩ := h.lexeme
  have hl : Lexeme.first x (xs ++ rest) = ⟨(Lexeme.first x (xs ++ rest)).kind, x :: xs⟩ := by
    rw [← htext]
  obtain ⟨hpending, -⟩ := stream_of_token file hle hk
  rw [stream_filler h.filler hle, List.cons_append, hpending, hl, ← List.cons_append, past_lexeme]
  rfl

/-- Characters that make a token each, whatever is behind them. -/
theorem exists_pending_replicate {n : Nat} (hx : ∀ rest, Begins [] [x] rest k)
    (hsize : x.utf8Size = 1) (hle : ∀ m < n, offset + m ≤ maxOffset) (file : String)
    (rest : List Char) :
    ∃ ts, (stream ⟨file, offset, List.replicate n x ++ rest⟩).pending =
        ts ++ (stream ⟨file, offset + n, rest⟩).pending ∧
      ts.map Token.piece = List.replicate n (k, String.ofList [x]) := by
  induction n generalizing offset with
  | zero => exact ⟨[], rfl, rfl⟩
  | succ n ih =>
    have hbytes : byteCount [x] = 1 := hsize
    have hle' : ∀ m < n, offset + 1 + m ≤ maxOffset := fun m hm => by
      have := hle (m + 1) (Nat.succ_lt_succ hm)
      omega
    obtain ⟨ts, hpending, hts⟩ := ih hle'
    -- the first of them, and the others behind it
    have hword : (stream ⟨file, offset, [x] ++ (List.replicate n x ++ rest)⟩).pending =
        wordToken file offset [x] k ::
          (stream ⟨file, offset + byteCount [x], List.replicate n x ++ rest⟩).pending :=
      pending_word (hx _) (hle 0 n.succ_pos)
    refine ⟨wordToken file offset [x] k :: ts, ?_, congrArg _ hts⟩
    rw [hbytes, hpending, Nat.add_assoc, Nat.add_comm 1 n] at hword
    exact hword

/-! ### Places between two tokens -/

variable {as bs : List Token}

/-- Every token begins where a position can still be recorded. -/
theorem offset_le {m : Nat} (h : (stream ⟨file, offset, text⟩).pending = as ++ bs)
    (hm : m < as.length) : offset + m ≤ maxOffset := by
  induction as generalizing offset text m with
  | nil => cases hm
  | cons t as ih =>
    obtain ⟨gap, word, rest, k, rfl, hbegins, hle, -, hrest⟩ := exists_begins h
    cases m with
    | zero => exact Nat.le_of_add_right_le hle
    | succ m =>
      have := ih hrest (Nat.lt_of_succ_lt_succ hm)
      have := hbegins.byteCount_pos
      omega

/-- Behind some of the tokens of a text, the others follow. -/
theorem exists_behind (h : (stream ⟨file, offset, text⟩).pending = as ++ bs) :
    ∃ front rest, text = front ++ rest ∧ as.length ≤ byteCount front ∧
      (stream ⟨file, offset + byteCount front, rest⟩).pending = bs := by
  induction as generalizing offset text with
  | nil => exact ⟨[], text, rfl, Nat.le_refl 0, h⟩
  | cons t as ih =>
    obtain ⟨gap, word, rest, k, rfl, hbegins, -, -, hpending⟩ := exists_begins h
    obtain ⟨front, rest, rfl, hlength, hpending⟩ := ih hpending
    refine ⟨gap ++ (word ++ front), rest, by simp only [List.append_assoc], ?_, ?_⟩
    · have := hbegins.byteCount_pos
      rw [byteCount_append, byteCount_append, List.length_cons]
      omega
    · rw [byteCount_append, byteCount_append, ← Nat.add_assoc, ← Nat.add_assoc]
      exact hpending

/-! ### Cutting -/

variable {mid gap' : List Char} {limit : Nat} {ws : List (Kind × String)}

/-- Wherever the stretch is put, up to byte `limit`, it makes the pieces, and
what may follow it stays apart. -/
def Portable (mid rest : List Char) (limit : Nat) (ws : List (Kind × String)) : Prop :=
  ∀ file offset rest', offset ≤ limit → MayFollow rest rest' →
    ∃ ts, (stream ⟨file, offset, mid ++ rest'⟩).pending =
        ts ++ (stream ⟨file, offset + byteCount mid, rest'⟩).pending ∧
      ts.map Token.piece = ws

theorem portable_word (h : Begins gap word rest k) (hle : limit ≤ maxOffset) :
    Portable word rest limit [(k, String.ofList word)] := by
  intro file offset rest' hoffset hrest
  refine ⟨[wordToken file offset word k], ?_, rfl⟩
  exact pending_word (h.congr hrest) (Nat.le_trans hoffset hle)

/-- A word, a gap behind it, and then what can be put elsewhere itself. -/
theorem Portable.cons (h : Portable mid rest (limit + byteCount word + byteCount gap') ws)
    (hword : Begins gap word (gap' ++ (mid ++ rest)) k) (hgap : IsFiller (mid ++ rest) gap')
    (hne : mid ≠ []) (hle : limit + byteCount word + byteCount gap' ≤ maxOffset) :
    Portable (word ++ (gap' ++ mid)) rest limit ((k, String.ofList word) :: ws) := by
  intro file offset rest' hoffset hrest
  have hbehind : offset + byteCount word + byteCount gap' ≤
      limit + byteCount word + byteCount gap' :=
    Nat.add_le_add_right (Nat.add_le_add_right hoffset _) _
  obtain ⟨ts, hpending, hts⟩ := h file _ rest' hbehind hrest
  refine ⟨wordToken file offset word k :: ts, ?_, congrArg _ hts⟩
  -- the gap and the rest of the stretch keep the word what it is
  have hfollow : MayFollow (gap' ++ (mid ++ rest)) (gap' ++ (mid ++ rest')) :=
    (hrest.append mid).append gap'
  -- the gap ends where the stretch goes on, whatever is behind that
  have hgap' : IsFiller (mid ++ rest') gap' := by
    refine hgap.congr fun c hc => .inr ?_
    rwa [List.head?_append_of_ne_nil mid hne] at hc ⊢
  have hstream : stream ⟨file, offset + byteCount word, gap' ++ (mid ++ rest')⟩ =
      stream ⟨file, offset + byteCount word + byteCount gap', mid ++ rest'⟩ :=
    stream_filler hgap' (Nat.le_trans hbehind hle)
  have hfirst : (stream ⟨file, offset, word ++ (gap' ++ (mid ++ rest'))⟩).pending =
      wordToken file offset word k ::
        (stream ⟨file, offset + byteCount word, gap' ++ (mid ++ rest')⟩).pending :=
    pending_word (hword.congr hfollow) (by
      show offset ≤ maxOffset
      omega)
  rw [List.append_assoc, List.append_assoc, hfirst, hstream, hpending, byteCount_append,
    byteCount_append, ← Nat.add_assoc, ← Nat.add_assoc]
  rfl

/-- The tokens are made by the stretch `mid`, between the blanks and comments
in `gap` and the characters in `rest`. -/
structure Cut (file : String) (offset : Nat) (ts : List Token) (gap mid rest : List Char) :
    Prop where
  filler : IsFiller (mid ++ rest) gap
  ne_nil : mid ≠ []
  le : offset + byteCount gap ≤ maxOffset
  span : Span.around ts = .ofBytes file (offset + byteCount gap) (byteCount mid)
  portable : Portable mid rest (offset + byteCount gap) (ts.map Token.piece)

/-- Tokens that stand in a text one behind the other can be cut out of it. -/
theorem exists_cut (h : (stream ⟨file, offset, text⟩).pending = ts ++ us) (hne : ts ≠ []) :
    ∃ gap mid rest, text = gap ++ (mid ++ rest) ∧ Cut file offset ts gap mid rest ∧
      (stream ⟨file, offset + byteCount gap + byteCount mid, rest⟩).pending = us := by
  induction ts generalizing offset text with
  | nil => exact absurd rfl hne
  | cons t ts ih =>
    obtain ⟨gap, word, rest, k, rfl, hbegins, hle, ht, hpending⟩ := exists_begins h
    by_cases hts : ts = []
    · -- the last token: the stretch is its word
      subst hts ht
      exact ⟨gap, word, rest, rfl,
        ⟨hbegins.filler, hbegins.ne_nil, hle, rfl, portable_word hbegins hle⟩, hpending⟩
    · obtain ⟨gap', mid, rest, rfl, hcut, hbehind⟩ := ih hpending hts
      refine ⟨gap, word ++ (gap' ++ mid), rest, by simp only [List.append_assoc], ?_, ?_⟩
      · -- the first token is in front, and the span is drawn from it to the others
        have hspan : Span.around (t :: ts) = t.span.cover (Span.around ts) :=
          Span.around_append (List.cons_ne_nil t []) hts []
        subst ht
        refine ⟨?_, List.append_ne_nil_of_left_ne_nil hbegins.ne_nil _, hle, ?_, ?_⟩
        · simpa only [List.append_assoc] using hbegins.filler
        · rw [hspan, hcut.span, byteCount_append, byteCount_append]
          exact Span.cover_ofBytes file _ _ _ _
        · exact hcut.portable.cons hbegins hcut.filler hcut.ne_nil hcut.le
      · rw [byteCount_append, byteCount_append, ← Nat.add_assoc, ← Nat.add_assoc]
        exact hbehind

end Cursor

end LetFn
