/-
LetFn/Token/Stream.lean

Token streams.  A stream gives token after token and never runs dry: after
finitely many pending tokens it repeats its last one, which is of kind
`eof`, forever.  No pending token is of that kind, so "the current token is
`eof`" and "nothing is pending" say the same.

A reader sees two tokens of a stream, the current one and the one behind it,
and moves on by one token at a time.  What it leaves is smaller or equal in
the order of streams: `t ≤ s` says that `t` is what some number of steps
leave of `s`.

Main statements: a list of tokens makes the stream of what stands before its
first `eof` (`ofTokens`), and a stream is made by its own list of tokens
(`ofTokens_toList`).
-/
import LetFn.Token

namespace LetFn

/-- Finitely many tokens, and then `eof` forever. -/
@[ext]
structure TokenStream where
  /-- The tokens before the end. -/
  pending : List Token
  /-- The token that is repeated at the end. -/
  last : Token
  kind_pending : ∀ t ∈ pending, t.kind ≠ .eof
  kind_last : last.kind = .eof

namespace TokenStream

/-- The token to be read now. -/
def current (s : TokenStream) : Token := s.pending.head?.getD s.last

/-- Moves on by one token; at the end, the stream stays as it is. -/
def advance (s : TokenStream) : TokenStream where
  pending := s.pending.tail
  last := s.last
  kind_pending t ht := s.kind_pending t (List.mem_of_mem_tail ht)
  kind_last := s.kind_last

/-- The token behind the current one. -/
def peek (s : TokenStream) : Token := s.advance.current

/-- All tokens, the last one once. -/
def toList (s : TokenStream) : List Token := s.pending ++ [s.last]

/-- What stands before the end are the tokens of any other kind. -/
theorem filter_toList (s : TokenStream) : (s.toList.filter fun t => t.kind ≠ .eof) = s.pending := by
  have hpending : (s.pending.filter fun t => t.kind ≠ .eof) = s.pending :=
    List.filter_eq_self.mpr fun t ht => decide_eq_true (s.kind_pending t ht)
  have hlast : ([s.last].filter fun t => t.kind ≠ .eof) = [] := by
    simp [s.kind_last]
  rw [toList, List.filter_append, hpending, hlast, List.append_nil]

/-- The offset at which the last token of a list ends, and 0 for no token. -/
def endOffset (tokens : List Token) : Nat :=
  (tokens.getLast?.map fun t => t.span.stop.offset).getD 0

/-- The first `eof` of a list of tokens.  A list without one gets it in
`file`, where its last token ends. -/
def lastOf (file : String) (tokens : List Token) : Token :=
  (tokens.find? fun t => t.kind = .eof).getD (.eof ⟨endOffset tokens, file⟩)

theorem kind_lastOf (file : String) (tokens : List Token) : (lastOf file tokens).kind = .eof := by
  rcases h : tokens.find? fun t => t.kind = .eof with - | t
  · rw [lastOf, h]; rfl
  · rw [lastOf, h]; simpa using List.find?_some h

/-- The stream of the tokens of a list before its first `eof`. -/
def ofTokens (file : String) (tokens : List Token) : TokenStream where
  pending := tokens.takeWhile fun t => t.kind ≠ .eof
  last := lastOf file tokens
  kind_pending t ht := by simpa using List.all_eq_true.mp List.all_takeWhile t ht
  kind_last := kind_lastOf file tokens

/-! ### The two tokens in view -/

@[simp] theorem pending_advance (s : TokenStream) : s.advance.pending = s.pending.tail := rfl

@[simp] theorem last_advance (s : TokenStream) : s.advance.last = s.last := rfl

theorem kind_current_eq_eof_iff {s : TokenStream} : s.current.kind = .eof ↔ s.pending = [] := by
  rcases h : s.pending with - | ⟨t, rest⟩
  · simp [current, h, s.kind_last]
  · have := s.kind_pending t (by simp [h])
    simp [current, h, this]

theorem length_pending_pos {s : TokenStream} (h : s.current.kind ≠ .eof) :
    0 < s.pending.length :=
  List.length_pos_iff.mpr fun h' => h (kind_current_eq_eof_iff.mpr h')

theorem length_advance_lt_of_peek {s : TokenStream} (h : s.peek.kind ≠ .eof) :
    s.advance.pending.length < s.pending.length := by
  have := length_pending_pos h
  simp only [pending_advance, List.length_tail] at this ⊢
  omega

/-! ### What is left of a stream -/

instance : LE TokenStream where
  le t s := t.last = s.last ∧ t.pending <:+ s.pending

theorem le_refl (s : TokenStream) : s ≤ s := ⟨rfl, List.suffix_refl _⟩

theorem le_trans {r s t : TokenStream} (h₁ : r ≤ s) (h₂ : s ≤ t) : r ≤ t :=
  ⟨h₁.1.trans h₂.1, h₁.2.trans h₂.2⟩

theorem advance_le (s : TokenStream) : s.advance ≤ s := ⟨rfl, List.tail_suffix _⟩

theorem length_le_of_le {s t : TokenStream} (h : s ≤ t) :
    s.pending.length ≤ t.pending.length :=
  h.2.length_le

/-- Before its end, a stream is longer than whatever is left after a further step. -/
theorem length_advance_lt_of_le {s t : TokenStream} (h : s ≤ t) (ht : t.current.kind ≠ .eof) :
    s.advance.pending.length < t.pending.length := by
  have := length_le_of_le h
  have := length_pending_pos ht
  simp only [pending_advance, List.length_tail]
  omega

/-! ### Streams and lists -/

theorem ofTokens_append {file : String} {tokens rest : List Token} {last : Token}
    (h : ∀ t ∈ tokens, t.kind ≠ .eof) (hl : last.kind = .eof) :
    ofTokens file (tokens ++ last :: rest) = ⟨tokens, last, h, hl⟩ := by
  have hfind : tokens.find? (fun t => decide (t.kind = .eof)) = none := by
    simpa using h
  ext1
  · show List.takeWhile _ _ = tokens
    rw [List.takeWhile_append_of_pos (by simpa using h)]
    simp [hl]
  · simp [ofTokens, lastOf, List.find?_append, hfind, hl]

theorem ofTokens_of_ne_eof (file : String) {tokens : List Token}
    (h : ∀ t ∈ tokens, t.kind ≠ .eof) :
    ofTokens file tokens = ⟨tokens, .eof ⟨endOffset tokens, file⟩, h, rfl⟩ := by
  have hfind : tokens.find? (fun t => decide (t.kind = .eof)) = none := by
    simpa using h
  ext1
  · show tokens.takeWhile _ = tokens
    conv => lhs; rw [← List.append_nil tokens]
    rw [List.takeWhile_append_of_pos fun t ht => decide_eq_true (h t ht), List.takeWhile_nil,
      List.append_nil]
  · show (tokens.find? _).getD _ = _
    rw [hfind]
    rfl

/-- A stream is made by its own list of tokens, whatever name stands for a missing end. -/
theorem ofTokens_toList (file : String) (s : TokenStream) : ofTokens file s.toList = s :=
  ofTokens_append s.kind_pending s.kind_last

end TokenStream

end LetFn
