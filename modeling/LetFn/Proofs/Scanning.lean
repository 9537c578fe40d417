/-
LetFn/Proofs/Scanning.lean

What a stretch of text is scanned into, wherever it stands.

Where a token stands does not matter for that: the pieces of a text are the
kinds and texts of its tokens, one behind the other (`pieces`).  A source that
is not too long has the pieces of its text for tokens (`map_piece_ofSource`),
and a text has its pieces no matter how long it is.

`Scans cs rest P` says that the characters `cs`, with `rest` behind them, fall
into pieces such that `P` holds of all tokens with these pieces, and that
the pieces of `rest` follow.  Only the first character of `rest` matters: a
word must not go on with it, and neither may a run of digits or a mark that is
the beginning of another one.  Such readings of stretches can be put together
one after the other (`Scans.append`).

Main statements: what words, numerals and marks are scanned into
(`scans_word`, `scans_digits`, `scans_mark`), that blanks and comments are
passed over (`scans_blank`, `scans_comment`), and that a whole source falls
into what its text is scanned into, as long as no offset in it is too large to
be recorded (`Scans.ofSource`).
-/
import LetFn.Token.Scanner

namespace LetFn

open LetFn.Text (byteCount byteCount_cons byteCount_append isBlank)

variable {file : String} {offset : Nat}
variable {x : Char} {xs cs ds rest : List Char}
variable {k : Kind}

/-! ### Characters -/

theorem toNat_of_isWordStart (h : isWordStart x) : 65 ≤ x.toNat ∧ x.toNat ≤ 122 := by
  change (decide (x.val ≥ 65 ∧ x.val ≤ 90) || (x.val ≥ 97 && x.val ≤ 122) || x == '_') = true at h
  simp only [Bool.or_eq_true, Bool.and_eq_true, decide_eq_true_eq, beq_iff_eq,
    UInt32.le_iff_toNat_le, ← UInt32.toNat_inj, Char.ext_iff] at h
  simp only [Char.reduceVal, UInt32.reduceToNat] at h
  show 65 ≤ x.val.toNat ∧ x.val.toNat ≤ 122
  omega

theorem toNat_of_isDigit (h : x.isDigit) : 48 ≤ x.toNat ∧ x.toNat ≤ 57 := by
  simp only [Char.isDigit, Bool.and_eq_true, decide_eq_true_eq, UInt32.le_iff_toNat_le] at h
  exact h

/-- Blanks stand before all letters and digits of ASCII, or behind all of ASCII. -/
theorem toNat_of_isBlank (h : isBlank x) : x.toNat ≤ 32 ∨ 133 ≤ x.toNat := by
  simp only [isBlank, Bool.or_eq_true, Bool.and_eq_true, decide_eq_true_eq, beq_iff_eq,
    Char.le_def, UInt32.le_iff_toNat_le, ← UInt32.toNat_inj, Char.ext_iff] at h
  simp only [Char.reduceVal, UInt32.reduceToNat] at h
  show x.val.toNat ≤ 32 ∨ 133 ≤ x.val.toNat
  omega

/-! ### Cursors -/

namespace Cursor

theorem past_lexeme {c : LexemeClass} :
    past ⟨file, offset, cs ++ rest⟩ ⟨c, cs⟩ = ⟨file, offset + byteCount cs, rest⟩ := by
  simp [past, Lexeme.size]

theorem next_of_token {c : LexemeClass} (hle : offset ≤ maxOffset)
    (hl : Lexeme.first x (xs ++ rest) = ⟨c, x :: xs⟩)
    (hk : (Lexeme.mk c (x :: xs)).tokenKind? = some k) :
    next ⟨file, offset, x :: xs ++ rest⟩ =
      (tokenOf ⟨file, offset, x :: xs ++ rest⟩ k ⟨c, x :: xs⟩,
        ⟨file, offset + byteCount (x :: xs), rest⟩) := by
  rw [next]
  simp only [List.cons_append, hle, if_pos, hl, hk]
  exact congrArg _ past_lexeme

theorem next_of_no_token {c : LexemeClass} (hle : offset ≤ maxOffset)
    (hl : Lexeme.first x (xs ++ rest) = ⟨c, x :: xs⟩)
    (hk : (Lexeme.mk c (x :: xs)).tokenKind? = none) :
    next ⟨file, offset, x :: xs ++ rest⟩ = next ⟨file, offset + byteCount (x :: xs), rest⟩ := by
  rw [next]
  simp only [List.cons_append, hle, if_pos, hl, hk]
  exact congrArg _ past_lexeme

theorem pending_stream {c : Cursor} (h : c.next.1.kind ≠ .eof) :
    c.stream.pending = c.next.1 :: c.next.2.stream.pending := by
  rw [stream, dif_neg h]

theorem pending_stream_of_eof {c : Cursor} (h : c.next.1.kind = .eof) : c.stream.pending = [] := by
  rw [stream, dif_pos h]

/-- Cursors that read the same token, and go on alike, have the same tokens. -/
theorem pending_stream_congr {c d : Cursor} (h : c.next = d.next) :
    c.stream.pending = d.stream.pending := by
  by_cases he : c.next.1.kind = .eof
  · rw [pending_stream_of_eof he, pending_stream_of_eof (h ▸ he)]
  · rw [pending_stream he, h]
    exact (pending_stream (h ▸ he)).symm

end Cursor

/-! ### Pieces of text -/

/-- The first of some texts, and what separates it from the others. -/
theorem toList_intercalate_cons_cons (separator first next : String) (later : List String) :
    (separator.intercalate (first :: next :: later)).toList =
      first.toList ++ (separator.toList ++ (separator.intercalate (next :: later)).toList) := by
  rw [String.intercalate_cons_cons, String.toList_append, String.toList_append, List.append_assoc]

/-- What a token says but for where it stands. -/
def Token.piece (t : Token) : Kind × String := (t.kind, t.text)

/-- The kinds and texts of the tokens of a text. -/
def pieces : List Char → List (Kind × String)
  | [] => []
  | x :: xs =>
    let l := Lexeme.first x xs
    match l.tokenKind? with
    | some kind => (kind, String.ofList l.text) :: pieces ((x :: xs).drop l.text.length)
    | none => pieces ((x :: xs).drop l.text.length)
termination_by text => text.length
decreasing_by
  all_goals
    have := List.length_pos_iff.mpr (Lexeme.text_first_ne_nil x xs)
    simp only [List.length_drop, List.length_cons]
    omega

theorem pieces_nil : pieces [] = [] := by
  rw [pieces]

theorem pieces_of_token {c : LexemeClass} (hl : Lexeme.first x (xs ++ rest) = ⟨c, x :: xs⟩)
    (hk : (Lexeme.mk c (x :: xs)).tokenKind? = some k) :
    pieces (x :: xs ++ rest) = (k, String.ofList (x :: xs)) :: pieces rest := by
  rw [List.cons_append, pieces, hl, ← List.cons_append, List.drop_left]
  simp only [hk]

theorem pieces_of_no_token {c : LexemeClass} (hl : Lexeme.first x (xs ++ rest) = ⟨c, x :: xs⟩)
    (hk : (Lexeme.mk c (x :: xs)).tokenKind? = none) :
    pieces (x :: xs ++ rest) = pieces rest := by
  rw [List.cons_append, pieces, hl, ← List.cons_append, List.drop_left]
  simp only [hk]

/-- The first lexeme of a text is a front of it that is not empty. -/
theorem exists_first (x : Char) (text : List Char) :
    ∃ c xs rest, text = xs ++ rest ∧ Lexeme.first x text = ⟨c, x :: xs⟩ := by
  obtain ⟨rest, hrest⟩ := Lexeme.text_first_isPrefix x text
  rcases hl : Lexeme.first x text with ⟨c, - | ⟨y, xs⟩⟩
  · exact absurd (congrArg Lexeme.text hl) (Lexeme.text_first_ne_nil x text)
  · rw [hl] at hrest
    obtain ⟨rfl, rfl⟩ := List.cons.inj hrest
    exact ⟨c, xs, rest, rfl, rfl⟩

/-- No token of a text stands for its end. -/
theorem kind_ne_eof_of_mem_pieces (text : List Char) : ∀ w ∈ pieces text, w.1 ≠ .eof := by
  fun_induction pieces text with
  | case1 => simp
  | case2 x xs l kind hk ih =>
    refine List.forall_mem_cons.mpr ⟨fun he => ?_, ih⟩
    exact Lexeme.tokenKind?_first_ne_eof x xs (hk.trans (congrArg some he))
  | case3 x xs l hk ih => exact ih

/-- Before the greatest offset, the tokens of a text have its pieces. -/
theorem map_piece_pending (text : List Char) (hsize : offset + byteCount text ≤ maxOffset) :
    (Cursor.stream ⟨file, offset, text⟩).pending.map Token.piece = pieces text := by
  -- on the length of the text: every lexeme uses some of it up
  induction hlen : text.length using Nat.strongRecOn generalizing text offset with
  | ind len ih =>
    subst hlen
    rcases text with - | ⟨x, text⟩
    · rw [pieces_nil, Cursor.pending_stream_of_eof]
      · rfl
      · rw [Cursor.next_of_text_nil rfl]
        rfl
    obtain ⟨c, xs, rest, rfl, hl⟩ := exists_first x text
    rw [← List.cons_append] at hsize ⊢
    have hle : offset ≤ maxOffset := Nat.le_of_add_right_le hsize
    rw [byteCount_append, ← Nat.add_assoc] at hsize
    have hrest := ih rest.length (by simp only [List.length_append, List.length_cons]; omega)
      rest hsize rfl
    rcases hk : (Lexeme.mk c (x :: xs)).tokenKind? with - | kind
    · -- no token: cursor and pieces go on behind the lexeme
      have hnext : Cursor.next ⟨file, offset, x :: xs ++ rest⟩ = _ :=
        Cursor.next_of_no_token hle hl hk
      rw [Cursor.pending_stream_congr hnext, pieces_of_no_token hl hk, hrest]
    · -- a token, and it is not the end
      have hnext : Cursor.next ⟨file, offset, x :: xs ++ rest⟩ = _ :=
        Cursor.next_of_token hle hl hk
      have hne : kind ≠ .eof :=
        fun he => Lexeme.tokenKind?_first_ne_eof x (xs ++ rest) (he ▸ hl ▸ hk)
      rw [Cursor.pending_stream (by rw [hnext]; exact hne), hnext, pieces_of_token hl hk,
        List.map_cons, hrest]
      rfl

/-! ### Stretches of text -/

/-- The characters `cs`, with `rest` behind them, are scanned into tokens of
which `P` holds. -/
def Scans (cs rest : List Char) (P : List Token → Prop) : Prop :=
  ∃ ws, pieces (cs ++ rest) = ws ++ pieces rest ∧ ∀ ts : List Token, ts.map Token.piece = ws → P ts

variable {P Q : List Token → Prop}

theorem Scans.nil (h : P []) : Scans [] rest P :=
  ⟨[], rfl, fun _ hts => List.map_eq_nil_iff.mp hts ▸ h⟩

theorem Scans.imp (h : Scans cs rest P) (hP : ∀ ts, P ts → Q ts) : Scans cs rest Q := by
  obtain ⟨ws, hws, h⟩ := h
  exact ⟨ws, hws, fun ts hts => hP ts (h ts hts)⟩

/-- Tokens with the given pieces, wherever they stand. -/
def tokensOf (ws : List (Kind × String)) : List Token := ws.map fun w => ⟨w.1, w.2, .null⟩

theorem map_piece_tokensOf (ws : List (Kind × String)) : (tokensOf ws).map Token.piece = ws := by
  rw [tokensOf, List.map_map]
  exact List.map_id ws

/-- One stretch after another. -/
theorem Scans.append (h : Scans cs (ds ++ rest) P)
    (h' : ∀ ts, P ts → Scans ds rest fun us => Q (ts ++ us)) : Scans (cs ++ ds) rest Q := by
  obtain ⟨ws, hws, hP⟩ := h
  -- the pieces of the second stretch are the same, whatever tokens the first one makes
  obtain ⟨vs, hvs, -⟩ := h' (tokensOf ws) (hP _ (map_piece_tokensOf ws))
  refine ⟨ws ++ vs, by rw [List.append_assoc, hws, hvs, List.append_assoc], fun ts hts => ?_⟩
  obtain ⟨us, us', rfl, hus, hus'⟩ := List.map_eq_append_iff.mp hts
  obtain ⟨vs', hvs', hQ⟩ := h' us (hP us hus)
  have hsame : vs = vs' := List.append_cancel_right (hvs.symm.trans hvs')
  exact hQ us' (hus'.trans hsame)

/-- The tokens are a single one, of the given kind and with the given text. -/
def IsToken (k : Kind) (text : List Char) (ts : List Token) : Prop :=
  ∃ t, ts = [t] ∧ t.kind = k ∧ t.text = String.ofList text

/-- A token, and then another stretch. -/
theorem Scans.token (h : Scans cs (ds ++ rest) (IsToken k cs))
    (h' : ∀ t : Token, t.kind = k → t.text = String.ofList cs →
      Scans ds rest fun us => P (t :: us)) :
    Scans (cs ++ ds) rest P := by
  apply h.append
  rintro _ ⟨t, rfl, hk, htext⟩
  exact h' t hk htext

/-- A stretch that is a lexeme is scanned into the token that the lexeme makes. -/
theorem scans_lexeme {c : LexemeClass} (hl : Lexeme.first x (xs ++ rest) = ⟨c, x :: xs⟩)
    (hk : (Lexeme.mk c (x :: xs)).tokenKind? = some k) :
    Scans (x :: xs) rest (IsToken k (x :: xs)) := by
  refine ⟨[(k, String.ofList (x :: xs))], pieces_of_token hl hk, fun ts hts => ?_⟩
  obtain ⟨t, rfl, ht⟩ := List.map_eq_singleton_iff.mp hts
  exact ⟨t, rfl, congrArg Prod.fst ht, congrArg Prod.snd ht⟩

/-- A lexeme that makes no token is passed over. -/
theorem Scans.silent {c : LexemeClass} (hl : Lexeme.first x (xs ++ (cs ++ rest)) = ⟨c, x :: xs⟩)
    (hk : (Lexeme.mk c (x :: xs)).tokenKind? = none) (h : Scans cs rest P) :
    Scans (x :: xs ++ cs) rest P := by
  obtain ⟨ws, hws, hP⟩ := h
  exact ⟨ws, by rw [List.append_assoc, pieces_of_no_token hl hk, hws], hP⟩

/-! ### Lexemes of each class -/

/-- A run of characters comes to its end before a character of another kind. -/
theorem takeWhile_run {p : Char → Bool} (hxs : xs.all p) (hrest : ∀ c ∈ rest.head?, ¬ p c) :
    (xs ++ rest).takeWhile p = xs := by
  rw [List.takeWhile_append_of_pos (by simpa using hxs)]
  cases rest with
  | nil => simp
  | cons c rest => simp [hrest c rfl]

theorem scans_word (hx : isWordStart x) (hxs : xs.all isWordPart)
    (hrest : ∀ c ∈ rest.head?, ¬ isWordPart c) :
    Scans (x :: xs) rest
      (IsToken ((Kind.keyword? (String.ofList (x :: xs))).getD .identifier) (x :: xs)) := by
  refine scans_lexeme (c := .word) ?_ rfl
  rw [Lexeme.first, if_pos hx, takeWhile_run hxs hrest]

theorem Lexeme.first_of_isDigit (h : x.isDigit) :
    first x xs = ⟨.digits, x :: xs.takeWhile Char.isDigit⟩ := by
  -- the classes of characters are apart in their code points
  have hword : ¬ isWordStart x := fun hword => by
    have := toNat_of_isWordStart hword
    have := toNat_of_isDigit h
    omega
  rw [first, if_neg hword, if_pos h]

theorem scans_digits (hx : x.isDigit) (hxs : xs.all Char.isDigit)
    (hrest : ∀ c ∈ rest.head?, ¬ c.isDigit) :
    Scans (x :: xs) rest (IsToken .number (x :: xs)) := by
  refine scans_lexeme (c := .digits) ?_ rfl
  rw [Lexeme.first_of_isDigit hx, takeWhile_run hxs hrest]

/-- A blank is the first one of a run. -/
theorem first_of_isBlank (hx : isBlank x) :
    Lexeme.first x (xs.takeWhile isBlank ++ xs.dropWhile isBlank) =
      ⟨.blank, x :: xs.takeWhile isBlank⟩ := by
  have hcode := toNat_of_isBlank hx
  have hword : ¬ isWordStart x := fun h => by
    have := toNat_of_isWordStart h
    omega
  have hdigit : ¬ x.isDigit := fun h => by
    have := toNat_of_isDigit h
    omega
  rw [List.takeWhile_append_dropWhile, Lexeme.first, if_neg hword, if_neg hdigit, if_pos hx]

/-- Blanks are passed over, as far as they go. -/
theorem pieces_dropWhile_isBlank (hx : isBlank x) :
    pieces (x :: xs) = pieces (xs.dropWhile isBlank) := by
  have hpieces : pieces (x :: xs.takeWhile isBlank ++ xs.dropWhile isBlank) = _ :=
    pieces_of_no_token (first_of_isBlank hx) rfl
  rwa [List.cons_append, List.takeWhile_append_dropWhile] at hpieces

theorem pieces_of_isBlank (hx : isBlank x) : pieces (x :: xs) = pieces xs := by
  rw [pieces_dropWhile_isBlank hx]
  rcases xs with - | ⟨c, xs⟩
  · rfl
  · by_cases hc : isBlank c
    · -- the blanks that follow belong to the same lexeme
      rw [List.dropWhile_cons_of_pos hc, pieces_dropWhile_isBlank hc]
    · rw [List.dropWhile_cons_of_neg hc]

/-- A blank is no token, whatever comes behind it. -/
theorem scans_blank (hx : isBlank x) (h : Scans cs rest P) : Scans (x :: cs) rest P := by
  obtain ⟨ws, hws, hP⟩ := h
  exact ⟨ws, by rw [List.cons_append, pieces_of_isBlank hx, hws], hP⟩

theorem scans_space (h : Scans cs rest P) : Scans (' ' :: cs) rest P :=
  scans_blank rfl h

/-- A comment runs to the end of its line, or of the text. -/
theorem first_comment {line : List Char} (hline : '\n' ∉ line)
    (hrest : ∀ c ∈ rest.head?, c = '\n') :
    Lexeme.first '/' ('/' :: line ++ rest) = ⟨.comment, '/' :: '/' :: line⟩ := by
  -- the second slash and the line are a run without a newline
  have hrun : ('/' :: line ++ rest).takeWhile (· != '\n') = '/' :: line := by
    apply takeWhile_run
    · rw [List.all_eq_true]
      rintro c hc
      rw [bne_iff_ne]
      rintro rfl
      simp [hline] at hc
    · intro c hc
      simp [hrest c hc]
  rw [Lexeme.first, if_neg (by decide), if_neg (by decide), if_neg (by decide),
    if_pos (by rfl), hrun]

/-- A comment is no token. -/
theorem scans_comment {line : List Char} (hline : '\n' ∉ line)
    (hrest : ∀ c ∈ (cs ++ rest).head?, c = '\n') (h : Scans cs rest P) :
    Scans ('/' :: '/' :: (line ++ cs)) rest P :=
  Scans.silent (first_comment hline hrest) rfl h

theorem scans_mark (hl : Lexeme.first x (xs ++ rest) = ⟨.mark k, x :: xs⟩) :
    Scans (x :: xs) rest (IsToken k (x :: xs)) :=
  scans_lexeme hl rfl

/-- A `!` is a mark by itself where no `=` follows. -/
theorem scans_not (hrest : ∀ c ∈ rest.head?, c ≠ '=') : Scans ['!'] rest (IsToken .not ['!']) := by
  -- a `!` and a `=` would be another mark
  have hmark : mark? ('!' :: rest) = some (.not, ['!']) := by
    cases rest with
    | nil => rfl
    | cons c text => simp [mark?, hrest c rfl]
  apply scans_mark
  show Lexeme.first '!' rest = _
  rw [Lexeme.first, if_neg (by decide), if_neg (by decide), if_neg (by decide), if_neg (by simp),
    hmark]

/-- A mark of one character, and then another stretch. -/
theorem Scans.mark (hl : Lexeme.first x (ds ++ rest) = ⟨.mark k, [x]⟩)
    (h : ∀ t : Token, t.kind = k → Scans ds rest fun us => P (t :: us)) :
    Scans (x :: ds) rest P := by
  -- the mark by itself is a stretch of one token
  have hone : Scans [x] (ds ++ rest) (IsToken k [x]) := scans_mark hl
  exact hone.token fun t hk _ => h t hk

/-! ### Whole sources -/

/-- A source that is not too long has the pieces of its text for tokens. -/
theorem map_piece_ofSource (file : String) {source : String}
    (hsize : source.utf8ByteSize ≤ maxOffset) :
    (TokenStream.ofSource file source).pending.map Token.piece = pieces source.toList := by
  exact map_piece_pending source.toList (by rwa [Nat.zero_add, Text.byteCount_toList])

/-- What a whole text is scanned into are all tokens that have its pieces. -/
theorem Scans.of_pieces {text : List Char} {ts : List Token} (h : Scans text [] P)
    (hts : ts.map Token.piece = pieces text) : P ts := by
  obtain ⟨ws, hws, hP⟩ := h
  -- behind the last character there is nothing
  rw [List.append_nil, pieces_nil, List.append_nil] at hws
  exact hP ts (hts.trans hws)

/-- A whole source falls into what its text is scanned into. -/
theorem Scans.ofSource {source : String} (h : Scans source.toList [] P) (file : String)
    (hsize : source.utf8ByteSize ≤ maxOffset) : P (TokenStream.ofSource file source).pending :=
  h.of_pieces (map_piece_ofSource file hsize)

end LetFn
