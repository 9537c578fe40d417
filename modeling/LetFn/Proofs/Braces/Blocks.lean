/-
LetFn/Proofs/Braces/Blocks.lean

Where a block ends that a source begins with.

If the content of the block is balanced, there is one closing brace that
belongs to the opening one, whatever else is wrong with the content.  The
block ends on that brace exactly if no failure within it leaves the reader on
a closing brace that has been read.  With `n` such failures, the block ends
`n` levels too deep, on a brace of its content, and what is left of the
content is read as if it stood behind the block.

Main statement: `statements_parseTokens_block`.
-/
import LetFn.Parser.Program
import LetFn.Proofs.Braces.Tracking

namespace LetFn

open LetFn.Parser

variable {file : String}
variable {inner : Nested}
variable {s t : TokenStream} {k : Nat}
variable {opening closing : Token}
variable {ts us rest tokens : List Token}

/-! ### Streams of lists -/

namespace TokenStream

theorem pending_ofTokens_append (file : String) (us : List Token)
    (hts : ∀ t ∈ ts, t.kind ≠ .eof) :
    (ofTokens file (ts ++ us)).pending = ts ++ (ofTokens file us).pending :=
  List.takeWhile_append_of_pos (by simpa using hts)

/-- A block, and the tokens behind it. -/
theorem pending_ofTokens_block (file : String) (rest : List Token)
    (ho : opening.kind = .openCurly) (hts : ∀ t ∈ ts, t.kind ≠ .eof)
    (hc : closing.kind = .closeCurly) :
    (ofTokens file (opening :: (ts ++ closing :: rest))).pending =
      opening :: (ts ++ closing :: (ofTokens file rest).pending) := by
  -- the block as a whole holds no end
  have hall : ∀ t ∈ opening :: (ts ++ [closing]), t.kind ≠ .eof := by
    simpa [ho, hc, or_imp, forall_and] using hts
  have hpending := pending_ofTokens_append file rest hall
  rw [List.cons_append, List.append_assoc, List.singleton_append] at hpending
  rw [hpending, List.cons_append, List.append_assoc, List.singleton_append]

/-- Tokens before others leave the end of these as it is. -/
theorem last_ofTokens_append (hts : ∀ t ∈ ts, t.kind ≠ .eof) (hus : us ≠ []) :
    (ofTokens file (ts ++ us)).last = (ofTokens file us).last := by
  -- no end is found before the others, and their last token is the last one
  have hfind : ts.find? (fun t => decide (t.kind = .eof)) = none := by simpa using hts
  have hlast : us.getLast? = some (us.getLast hus) := List.getLast?_eq_some_getLast hus
  show lastOf file (ts ++ us) = lastOf file us
  simp [lastOf, endOffset, List.find?_append, hfind, List.getLast?_append, hlast]

/-- What is pending begins the list that makes the stream. -/
theorem exists_eq_append_of_pending (h : (ofTokens file tokens).pending = us ++ ts) :
    ∃ vs, tokens = us ++ vs ∧ ∀ u ∈ us, u.kind ≠ .eof := by
  refine ⟨ts ++ tokens.dropWhile fun t => t.kind ≠ .eof, ?_, ?_⟩
  · rw [← List.append_assoc, ← h]
    exact List.takeWhile_append_dropWhile.symm
  · exact fun u hu => (ofTokens file tokens).kind_pending u (h ▸ List.mem_append_left ts hu)

end TokenStream

/-! ### Programs piece by piece -/

theorem statements_parse_of_nil (ht : t.pending = []) : (parse t).program.statements = [] := by
  have he := TokenStream.kind_current_eq_eof_iff.mpr ht
  show (runStatements .outermost false t).value = []
  rw [runStatements_of_ends (by rw [he]; rfl)]

/-- What stands behind some tokens of a list is read like a list of its own. -/
theorem exists_statements_parse_eq
    (h : (TokenStream.ofTokens file tokens).pending = us ++ t.pending)
    (hlast : t.last = (TokenStream.ofTokens file tokens).last) :
    ∃ vs, tokens = us ++ vs ∧
      (parse t).program.statements = (parseTokens file vs).program.statements := by
  obtain ⟨vs, rfl, hus⟩ := TokenStream.exists_eq_append_of_pending h
  refine ⟨vs, rfl, ?_⟩
  rw [TokenStream.pending_ofTokens_append file vs hus] at h
  have ht : t.pending = (TokenStream.ofTokens file vs).pending := (List.append_cancel_left h).symm
  -- without a token left the ends of the two streams may differ, but nothing is read
  rcases vs with - | ⟨v, vs⟩
  · rw [parseTokens, statements_parse_of_nil ht, statements_parse_of_nil rfl]
  · rw [TokenStream.last_ofTokens_append hus (List.cons_ne_nil v vs)] at hlast
    rw [TokenStream.ext ht hlast]
    rfl

/-- A statement that can be read, and the rest of the program. -/
theorem statements_parse_of_ok {found : Option ParsedStmt} (hs : s.current.kind ≠ .eof)
    (h : ((statement .outermost).run s).value = .ok found) :
    (parse s).program.statements = found.toList ++
      (parse ((statement .outermost).run s).rest.advance).program.statements := by
  show (runStatements .outermost false s).value = _
  rw [runStatements_of_ok (by simpa [endsSequence] using hs) h]
  rfl

/-! ### The run of a block -/

theorem run_block_of_closing
    (h : (runStatements inner true s.advance).rest.current.kind = .closeCurly) :
    let o := runStatements inner true s.advance
    (block inner).run s =
      ⟨.ok ⟨⟨s.current, s.current.span.cover o.rest.current.span⟩, o.value⟩, o.rest,
        s.sight :: o.events⟩ := by
  rw [run_block]
  simp only [if_pos h]

/-- A block that a program begins with. -/
theorem statements_parse_block {body : ParsedBlock} {events : List Event}
    (hs : s.current.kind = .openCurly)
    (h : Nested.outermost.block.run s = ⟨.ok body, t, events⟩) :
    (parse s).program.statements = .block body :: (parse t.advance).program.statements := by
  -- the statement is the block, with its first token announced
  have hrun : (statement .outermost).run s =
      ⟨.ok (some (.block body)), t, .statement s.current :: events⟩ := by
    simp only [statement, run_bind, run_current, run_announce, run_pure, after_ok, hs, reduceCtorEq,
      if_false, Kind.statementForm?, formed, blockStatement, h, List.nil_append, List.append_nil,
      List.singleton_append]
  rw [statements_parse_of_ok (by rw [hs]; decide) (congrArg Outcome.value hrun), hrun]
  rfl

/-! ### Where a block ends -/

/-- The end of the source is not within a block with balanced content. -/
theorem TokenStream.Reaches.not_over (h : s.Reaches k t) (hs : s.pending = ts ++ closing :: rest)
    (hts : Leads 0 ts 0) (hc : closing.kind = .closeCurly) : t.current.kind ≠ .eof := by
  obtain ⟨us, e, hus, hleads, -⟩ := h
  intro he
  rw [TokenStream.kind_current_eq_eof_iff.mp he, List.append_nil, hs] at hus
  -- the closing brace would have been passed with none open
  obtain ⟨d, hfirst, hlater⟩ := (hus ▸ hleads).split
  obtain rfl := hts.unique hfirst
  exact hlater.not_closing hc

/-- A block with balanced content can be read.  It ends on a closing brace
before which as many braces of the content are open as there are failures
that leave the reader on a closing brace. -/
theorem run_block_of_balanced (hi : Careful inner)
    (hs : s.pending = opening :: (ts ++ closing :: rest))
    (hts : Leads 0 ts 0) (hc : closing.kind = .closeCurly) :
    ∃ body t events,
      (block inner).run s = ⟨.ok ⟨⟨opening, opening.span.cover t.current.span⟩, body⟩, t, events⟩ ∧
      t.current.kind = .closeCurly ∧ s.advance.Reaches (strandings s events) t := by
  have hcontent := TokenStream.pending_advance_of_pending hs
  -- the brace that opens the block is not part of the count
  obtain ⟨hreach, hends⟩ := reaches_runStatements hi (.refl (r := s.advance))
  have hne := hreach.not_over hcontent hts hc
  have hclose : (runStatements inner true s.advance).rest.current.kind = .closeCurly := by
    simpa [endsSequence, hne] using hends
  have hrun := run_block_of_closing hclose
  rw [Nat.zero_add] at hreach
  rw [TokenStream.current_of_pending hs] at hrun
  exact ⟨_, _, _, hrun, hclose, hreach⟩

/-- How many failures there are in the block that the tokens begin with which
leave the reader on a closing brace that has been read. -/
def strandingsOf (file : String) (tokens : List Token) : Nat :=
  let s := TokenStream.ofTokens file tokens
  strandings s (Nested.outermost.block.run s).events

/-- Where the block ends that some tokens begin with, and what follows. -/
theorem exists_end_of_block (file : String) (rest : List Token)
    (ho : opening.kind = .openCurly) (hfree : ∀ t ∈ ts, t.kind ≠ .eof)
    (hts : Leads 0 ts 0) (hc : closing.kind = .closeCurly) :
    let tokens := opening :: (ts ++ closing :: rest)
    ∃ us inner vs body, ts ++ closing :: rest = us ++ inner :: vs ∧ inner.kind = .closeCurly ∧
      Leads 0 us (strandingsOf file tokens) ∧
      (parseTokens file tokens).program.statements =
        .block ⟨⟨opening, opening.span.cover inner.span⟩, body⟩ ::
          (parseTokens file vs).program.statements := by
  intro tokens
  let s := TokenStream.ofTokens file tokens
  have hs : s.pending = _ := TokenStream.pending_ofTokens_block file rest ho hfree hc
  -- the content of the outermost block is one level deeper
  obtain ⟨body, t, events, hrun, hk, us, n, hus, hleads, hn⟩ :=
    run_block_of_balanced (careful_within 127) hs hts hc
  have hrun : Nested.outermost.block.run s = _ := hrun
  have ht : t.pending = t.current :: t.advance.pending :=
    TokenStream.pending_eq_cons (by rw [hk]; decide)
  have hlast : t.last = s.last := by
    have hle := (Nested.outermost.block.rest_le s).1
    rwa [hrun] at hle
  -- the reader is not at the end of the source, so that the number of open braces matters
  obtain rfl : n = strandingsOf file tokens := by
    rw [strandingsOf, hrun]
    exact hn.resolve_left (by rw [ht]; exact List.cons_ne_nil _ _)
  rw [TokenStream.pending_advance_of_pending hs] at hus
  have hpassed : s.pending = (opening :: (us ++ [t.current])) ++ t.advance.pending := by
    rw [hs, hus, ht]
    simp
  obtain ⟨vs, hvs, hlater⟩ := exists_statements_parse_eq hpassed hlast
  refine ⟨us, t.current, vs, body, ?_, hk, hleads, ?_⟩
  · simpa [tokens] using hvs
  · rw [← hlater]
    exact statements_parse_block (by rw [TokenStream.current_of_pending hs, ho]) hrun

/-- **A block ends on its own closing brace**, behind which reading goes on,
if no failure in it leaves the reader on a closing brace that has been read.
If `n` failures do, it ends on a brace of its content before which `n`
others are open. -/
theorem statements_parseTokens_block (file : String) (opening closing : Token)
    (ts rest : List Token) (ho : opening.kind = .openCurly) (hts : ∀ t ∈ ts, t.kind ≠ .eof)
    (hb : Balanced ts) (hc : closing.kind = .closeCurly) :
    let tokens := opening :: (ts ++ closing :: rest)
    let n := strandingsOf file tokens
    (n = 0 → ∃ body, (parseTokens file tokens).program.statements =
      .block ⟨⟨opening, opening.span.cover closing.span⟩, body⟩ ::
        (parseTokens file rest).program.statements) ∧
    (n ≠ 0 → ∃ us inner vs body, ts = us ++ inner :: vs ∧ inner.kind = .closeCurly ∧
      opens us = closes us + n ∧ (parseTokens file tokens).program.statements =
        .block ⟨⟨opening, opening.span.cover inner.span⟩, body⟩ ::
          (parseTokens file (vs ++ closing :: rest)).program.statements) := by
  have hcontent : Leads 0 ts 0 := balanced_iff.mp hb
  obtain ⟨us, inner, vs, body, hus, hk, hleads, hparse⟩ :=
    exists_end_of_block file rest ho hts hcontent hc
  -- the brace on which the block ends: its own, or one of the content
  rcases hcontent.stops hc hleads hk hus with ⟨hzero, rfl, rfl, rfl⟩ | ⟨hne, vs, rfl, rfl⟩
  · exact ⟨fun _ => ⟨body, hparse⟩, fun h => absurd hzero h⟩
  · refine ⟨fun h => absurd h hne, fun _ => ⟨us, inner, vs, body, rfl, hk, ?_, hparse⟩⟩
    have := hleads.counts.2
    omega

/-- Of these two blocks, one is broken and ends where it should; the other ends on the brace
of a function within it. -/
theorem statements_parseTokens_block_examples :
    (let s := TokenStream.ofSource "shell" "{ let { } x } y"
     let opening := s.current
     let ts := s.advance.pending.take 4
     let closing := s.pending.getD 5 s.last
     let rest := s.pending.drop 6
     let tokens := opening :: (ts ++ closing :: rest)
     s.pending = tokens ∧ strandingsOf "shell" tokens = 0 ∧
      ∃ body, (parseTokens "shell" tokens).program.statements =
        .block ⟨⟨opening, opening.span.cover closing.span⟩, body⟩ ::
          (parseTokens "shell" rest).program.statements) ∧
    (let s := TokenStream.ofSource "shell" "{ (fn() { } x) } y"
     let opening := s.current
     let ts := s.advance.pending.take 8
     let closing := s.pending.getD 9 s.last
     let rest := s.pending.drop 10
     let tokens := opening :: (ts ++ closing :: rest)
     s.pending = tokens ∧ strandingsOf "shell" tokens = 1 ∧
      ∃ us inner vs body, ts = us ++ inner :: vs ∧ inner.kind = .closeCurly ∧
        opens us = closes us + 1 ∧ (parseTokens "shell" tokens).program.statements =
          .block ⟨⟨opening, opening.span.cover inner.span⟩, body⟩ ::
            (parseTokens "shell" (vs ++ closing :: rest)).program.statements) := by
  constructor
  · intro s opening ts closing rest tokens
    have hn : strandingsOf "shell" tokens = 0 := by decide +kernel
    refine ⟨by decide +kernel, hn, ?_⟩
    exact (statements_parseTokens_block "shell" opening closing ts rest (by decide +kernel)
      (by decide +kernel) (by decide +kernel) (by decide +kernel)).1 hn
  · intro s opening ts closing rest tokens
    have hn : strandingsOf "shell" tokens = 1 := by decide +kernel
    refine ⟨by decide +kernel, hn, ?_⟩
    have key := (statements_parseTokens_block "shell" opening closing ts rest (by decide +kernel)
      (by decide +kernel) (by decide +kernel) (by decide +kernel)).2
    rw [hn] at key
    exact key Nat.one_ne_zero

/-- Behind a missing `)` skipping takes the end of the function for that of the block. -/
theorem exists_block_not_ending_on_its_brace :
    let s := TokenStream.ofSource "shell" "{ (fn() { } x) } y"
    let opening := s.current
    let ts := s.advance.pending.take 8
    let closing := s.pending.getD 9 s.last
    let rest := s.pending.drop 10
    s.pending = opening :: (ts ++ closing :: rest) ∧ opening.kind = .openCurly ∧
      (∀ t ∈ ts, t.kind ≠ .eof) ∧ Balanced ts ∧ closing.kind = .closeCurly ∧
      ¬ ∃ body, (parseTokens "shell" (opening :: (ts ++ closing :: rest))).program.statements =
        .block ⟨⟨opening, opening.span.cover closing.span⟩, body⟩ ::
          (parseTokens "shell" rest).program.statements := by
  intro s opening ts closing rest
  refine ⟨by decide +kernel, by decide +kernel, by decide +kernel, by decide +kernel,
    by decide +kernel, ?_⟩
  -- whatever the body, the statements behind the block are not those of `rest`
  rintro ⟨body, h⟩
  have hlater : (parseTokens "shell" (opening :: (ts ++ closing :: rest))).program.statements.tail =
    (parseTokens "shell" rest).program.statements := congrArg List.tail h
  exact absurd hlater (by decide +kernel)

end LetFn
