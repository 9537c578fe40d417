/-
LetFn/Proofs/Reader/Sources.lean

A reader cannot tell a text from the tokens that were collected from it.

A text is scanned while it is being read; collected tokens are taken from a
list, and then from the end of it that has been kept.  The two have nothing
in common but what they give, which is the same token every time they are
asked, also when they are asked for more behind the end (`token_congr`,
`stream_buffer_tokenize`).

Two readers are `Alongside` each other if they stand at the same place of
such sources.  Every call comes to the same with both of them and leaves them
alongside each other (`Alongside.call`), so that any number of calls does
(`Alongside.afterCalls`).

Of a list of tokens only what stands up to its first `eof` is ever seen, and a
list without one is read as if it had it (`parseTokens_append_eof`): the streams
of such lists are the same, and whatever is asked of their sources, also any
number of times behind the end, comes to the same (`Interchangeable`).

Main statements: `parseTokens_tokenize`, `parseTokens_append_eof`.
-/
import LetFn.Proofs.Reader.History
import LetFn.Tree.Render

namespace LetFn

/-! ### Sources that give the same tokens -/

namespace TokenSource

variable {a b : TokenSource}

theorem stream_skip_congr (h : a.stream = b.stream) (n : Nat) :
    (a.skip n).stream = (b.skip n).stream := by
  induction n with
  | zero => exact h
  | succ n ih => rw [skip, skip, stream_next, stream_next, ih]

/-- Sources that are going to give the same tokens give the same one behind any number of others. -/
theorem token_congr (h : a.stream = b.stream) (n : Nat) : a.token n = b.token n := by
  rw [token, token, fst_next, fst_next, stream_skip_congr h]

/-- The collected tokens of a source, whatever name they are given. -/
theorem stream_buffer_tokenize (file name source : String) :
    (buffer (.ofTokens name (tokenize file source))).stream =
      (text (.ofSource file source)).stream :=
  (TokenBuffer.stream_ofTokens name _).trans (TokenStream.ofTokens_toList name _)

/-- Collected tokens are given one after the other, and then the last one of
their stream for ever. -/
theorem token_buffer {file : String} {tokens : List Token} {s : TokenStream}
    (h : .ofTokens file tokens = s) (n : Nat) :
    (buffer (.ofTokens file tokens)).token n = s.pending[n]?.getD s.last := by
  have hstream : (buffer (.ofTokens file tokens)).stream = s :=
    (TokenBuffer.stream_ofTokens file tokens).trans h
  rw [token_eq, hstream]

end TokenSource

/-! ### Two readers -/

namespace Reader

variable {a b : TokenSource}
variable {r r' : Reader}

/-- Two readers between two calls, at the same place of what their sources
are going to give, and with the same errors. -/
structure Alongside (r r' : Reader) : Prop where
  shows : ∃ s, r.window.Shows s ∧ r'.window.Shows s
  errors : r.errors = r'.errors
  depth : r.depth = 0 ∧ r'.depth = 0
  blockDepth : r.blockDepth = 0 ∧ r'.blockDepth = 0

theorem alongside_ofSource (h : a.stream = b.stream) :
    Alongside (ofSource a) (ofSource b) where
  shows := ⟨a.stream, Window.shows_ofSource a, h ▸ Window.shows_ofSource b⟩
  errors := rfl
  depth := ⟨rfl, rfl⟩
  blockDepth := ⟨rfl, rfl⟩

/-- A call comes to the same, and leaves the readers alongside each other. -/
theorem Alongside.call (h : Alongside r r') (c : Call) :
    (c.action.run r).1 = (c.action.run r').1 ∧
      Alongside (c.action.run r).2 (c.action.run r').2 := by
  obtain ⟨s, hs, hs'⟩ := h.shows
  -- either reader does what the parser does on the stream that both show
  obtain ⟨hvalue, hcarried⟩ := call_follows c hs h.depth.1 h.blockDepth.1
  obtain ⟨hvalue', hcarried'⟩ := call_follows c hs' h.depth.2 h.blockDepth.2
  refine ⟨hvalue.trans hvalue'.symm, ⟨_, hcarried.shows, hcarried'.shows⟩, ?_, ?_, ?_⟩
  · rw [hcarried.errors, hcarried'.errors, h.errors]
  · exact ⟨hcarried.depth.trans h.depth.1, hcarried'.depth.trans h.depth.2⟩
  · exact ⟨hcarried.blockDepth.trans h.blockDepth.1, hcarried'.blockDepth.trans h.blockDepth.2⟩

/-- Any calls do. -/
theorem Alongside.afterCalls (h : Alongside r r') (calls : List Call) :
    Alongside (r.afterCalls calls) (r'.afterCalls calls) := by
  induction calls generalizing r r' with
  | nil => exact h
  | cons c calls ih => exact ih (h.call c).2

/-- **Collecting the tokens of a source beforehand makes no difference**: they
are read as the source itself is, and whatever name they are given, the
program and the errors are the same, with every place and file name in them.
Of a text and of its tokens a reader gets one token after the other, the same
ones for ever; and whatever is asked of it before, and at last for the program,
it comes to the same. -/
theorem parseTokens_tokenize (file name source : String) :
    parseTokens name (tokenize file source) = parseSource file source ∧
    let lazy := TokenSource.text (.ofSource file source)
    let collected := TokenSource.buffer (.ofTokens name (tokenize file source))
    (∀ n, collected.token n = lazy.token n) ∧
    (let o := Call.program.action.run (ofSource lazy)
     o.1 = .ok (parseSource file source).program ∧ o.2.errors = (parseSource file source).errors) ∧
    ∀ (calls : List Call) (c : Call),
      let o := c.action.run ((ofSource lazy).afterCalls calls)
      let o' := c.action.run ((ofSource collected).afterCalls calls)
      o'.1 = o.1 ∧ o'.2.errors = o.2.errors := by
  have hstream := TokenSource.stream_buffer_tokenize file name source
  refine ⟨congrArg parse hstream, TokenSource.token_congr hstream, run_program_ofSource _, ?_⟩
  -- the readers stay alongside each other through the calls
  intro calls c o o'
  obtain ⟨hvalue, hafter⟩ := ((alongside_ofSource hstream).afterCalls calls).call c
  exact ⟨hvalue, hafter.errors⟩

/-! ### Tokens behind the end -/

/-- Two sources that a reader cannot tell apart, whatever it is asked to do: they
give the same tokens for ever, and any call behind any others comes to the same. -/
structure Interchangeable (a b : TokenSource) : Prop where
  token : ∀ n, a.token n = b.token n
  call : ∀ (calls : List Call) (c : Call),
    let o := c.action.run ((ofSource a).afterCalls calls)
    let o' := c.action.run ((ofSource b).afterCalls calls)
    o.1 = o'.1 ∧ o.2.errors = o'.2.errors

theorem interchangeable_of_stream (h : a.stream = b.stream) : Interchangeable a b where
  token := TokenSource.token_congr h
  call calls c := by
    obtain ⟨hvalue, hafter⟩ := ((alongside_ofSource h).afterCalls calls).call c
    exact ⟨hvalue, hafter.errors⟩

/-- **Only the tokens up to the first `eof` count.**  What stands behind it makes
no difference, and neither does the name that is given to the tokens.  A list
without an `eof` is read as if it had one where its last token ends, in the file
with that name.  Of such lists a reader gets the tokens before the `eof` and then
that one for ever, and comes to the same in any calls. -/
theorem parseTokens_append_eof (file name : String) (tokens rest : List Token) (last : Token)
    (htokens : ∀ t ∈ tokens, t.kind ≠ .eof) (hlast : last.kind = .eof) :
    parseTokens file (tokens ++ [last] ++ rest) = parseTokens name (tokens ++ [last]) ∧
    let place : Position := ⟨(tokens.getLast?.map fun t => t.span.stop.offset).getD 0, file⟩
    let made : Token := ⟨.eof, "EOF", place, place⟩
    let source (file : String) (tokens : List Token) := TokenSource.buffer (.ofTokens file tokens)
    parseTokens file tokens = parseTokens name (tokens ++ [made]) ∧
    Interchangeable (source file (tokens ++ [last] ++ rest)) (source name (tokens ++ [last])) ∧
    Interchangeable (source file tokens) (source name (tokens ++ [made])) ∧
    (∀ n, (source file (tokens ++ [last] ++ rest)).token n = tokens[n]?.getD last) ∧
    ∀ n, (source file tokens).token n = tokens[n]?.getD made := by
  -- what stands behind the first `eof` is not in the stream
  have hended : TokenStream.ofTokens file (tokens ++ [last] ++ rest) =
      ⟨tokens, last, htokens, hlast⟩ := by
    rw [List.append_assoc]
    exact TokenStream.ofTokens_append htokens hlast
  have hshort : TokenStream.ofTokens name (tokens ++ [last]) = ⟨tokens, last, htokens, hlast⟩ :=
    TokenStream.ofTokens_append htokens hlast
  refine ⟨congrArg parse (hended.trans hshort.symm), ?_⟩
  intro place made source
  -- a list without an `eof` has the stream that it has with the one that is made
  have hopen : TokenStream.ofTokens file tokens = ⟨tokens, made, htokens, rfl⟩ :=
    TokenStream.ofTokens_of_ne_eof file htokens
  have hmade : TokenStream.ofTokens name (tokens ++ [made]) = ⟨tokens, made, htokens, rfl⟩ :=
    TokenStream.ofTokens_append htokens rfl
  refine ⟨congrArg parse (hopen.trans hmade.symm),
    interchangeable_of_stream (hended.trans hshort.symm),
    interchangeable_of_stream (hopen.trans hmade.symm), TokenSource.token_buffer hended,
    TokenSource.token_buffer hopen⟩

/-- A block and a parenthesis that are never closed, whose `eof` is asked for again
and again, although what would close them stands behind it.  The statement in
front of them is read. -/
theorem parseTokens_append_eof_example :
    let s := TokenStream.ofSource "shell" "g; let f = fn(x) { return (x; y) }; z"
    let tokens := s.pending.take 15
    let rest := s.pending.drop 15 ++ [s.last]
    let last := Token.eof ⟨40, "shell"⟩
    let made := Token.eof ⟨31, "left"⟩
    tokens.length = 15 ∧ rest.length = 5 ∧
      (parseTokens "left" (tokens ++ [last] ++ rest)).errors.length = 2 ∧
      (parseTokens "left" (tokens ++ [last] ++ rest)).program.render = "g;" ∧
      parseTokens "left" (tokens ++ [last] ++ rest) = parseTokens "right" (tokens ++ [last]) ∧
      parseTokens "left" tokens = parseTokens "right" (tokens ++ [made]) := by
  intro s tokens rest last made
  have hplace : (tokens.getLast?.map fun t => t.span.stop.offset).getD 0 = 31 := by decide +kernel
  obtain ⟨hended, hopen, -⟩ := parseTokens_append_eof "left" "right" tokens rest last
    (by decide +kernel) rfl
  rw [hplace] at hopen
  exact ⟨by decide +kernel, by decide +kernel, by decide +kernel, by decide +kernel, hended,
    hopen⟩

end Reader

end LetFn
