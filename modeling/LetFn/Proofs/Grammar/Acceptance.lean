/-
LetFn/Proofs/Grammar/Acceptance.lean

A source is accepted, which means read without errors, exactly if its tokens
are a program of the grammar that needs no more levels than there are; and
the program that is read is the one of the grammar.

A program that needs more levels is reported as too deep.  What is read of a
source that is not accepted is in the lax grammar: it is what is left of the
tokens without the statements that cannot be read.

Main statement: `parseTokens_eq_iff`.
-/
import LetFn.Parser.Program
import LetFn.Proofs.Grammar.Completeness
import LetFn.Proofs.Grammar.Soundness

namespace LetFn

namespace Grammar

open LetFn.Parser

variable {s : TokenStream} {p : ParsedProgram} {n : Nat}

/-! ### What is read is in the grammar -/

/-- What is left of any source is a program of the lax grammar. -/
theorem isProgram_parse (lax : Bool) (s : TokenStream) (h : lax = false → (parse s).errors = []) :
    ∃ n ≤ maxNesting, IsProgram lax s.pending (parse s).program n := by
  have hsound : Sound lax .outermost maxNesting := sound_within lax maxNesting
  obtain ⟨⟨ts, n, hts, -, hstmts, hn⟩, hend⟩ := finds_runStatements hsound false (s := s) h
  -- outside of blocks, a sequence of statements ends with the source alone
  have heof : (runStatements .outermost false s).rest.current.kind = .eof := by
    simpa [endsSequence] using hend
  rw [TokenStream.kind_current_eq_eof_iff.mp heof, List.append_nil] at hts
  rw [heof] at hstmts
  exact ⟨n, hn, hts ▸ hstmts⟩

/-! ### What is in the grammar is read -/

/-- A program of the grammar runs through, or is too deep. -/
theorem passes_program (h : IsProgram false s.pending p n) :
    Passes n maxNesting (statements .outermost false) s (pure p.statements)
      (fun t => t.pending = [] ∧ t.last = s.last) :=
  passes_stmts h (List.append_nil _).symm rfl rfl

theorem parse_eq_of_isProgram (h : IsProgram false s.pending p n) (hn : n ≤ maxNesting) :
    parse s = ⟨p, []⟩ := by
  rcases passes_program h with ⟨-, t, -, ht⟩ | ⟨hlt, -⟩
  · have hv := congrArg (·.1) ht
    have he := congrArg (·.2.2) ht
    have hvalue : (runStatements .outermost false s).value = p.statements := Except.ok.inj hv
    have herrors : errorsOf (runStatements .outermost false s).events = [] := he
    rw [parse, readProgram, hvalue, herrors]
  · omega

theorem exists_tooDeep_of_isProgram (h : IsProgram false s.pending p n) (hn : maxNesting < n) :
    ∃ d ∈ (parse s).errors, d.cause = .tooDeep maxNesting := by
  rcases passes_program h with ⟨hle, -⟩ | ⟨-, d, hd, h⟩
  · omega
  · rcases h with h | h
    · cases h
    · exact ⟨d, h, hd⟩

/-! ### Acceptance -/

/-- **The parser accepts exactly its grammar**: tokens are read without errors
and as the program `p` if, up to the first `eof`, they are a program of the
grammar with the tree `p` that needs no more levels than there are. -/
theorem parseTokens_eq_iff (file : String) (tokens : List Token) (p : ParsedProgram) :
    parseTokens file tokens = ⟨p, []⟩ ↔
      ∃ n ≤ maxNesting, IsProgram false (tokens.takeWhile (·.kind ≠ .eof)) p n := by
  constructor
  · intro h
    have key := isProgram_parse false (.ofTokens file tokens) fun _ => congrArg Parsed.errors h
    rwa [show parse (.ofTokens file tokens) = ⟨p, []⟩ from h] at key
  · rintro ⟨n, hn, h⟩
    exact parse_eq_of_isProgram h hn

end Grammar

end LetFn
