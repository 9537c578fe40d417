/-
LetFn/Proofs/UniqueReading.lean

Canonical texts can be read in one way only.

Tokens are those of one program at most: for any two derivations in the
grammar there are levels enough, and with these the parser runs through and
gives the program of the one and of the other (`IsProgram.unique`).  So the
grammar has no limit of nesting, and the program that some tokens are of does
not depend on it.

The pieces of a canonical text make tokens of the grammar for its program,
however long the text is and however deep the program.  Texts that are the
same have the same pieces, and therefore come from the same program.

Main statement: `render_eq_render_iff`.
-/
import LetFn.Proofs.RoundTrip

namespace LetFn

open Grammar

variable {α β : Type}

/-! ### The grammar is unambiguous -/

section Unique

variable {ts : List Token} {p q : ParsedProgram} {m n : Nat}

/-- With levels enough, the parser gives the program of the grammar. -/
theorem Grammar.IsProgram.outline_statements (h : IsProgram false ts p m) (hle : m ≤ n)
    (s : TokenStream) (hs : s.pending = ts) :
    ((Parser.statements (.within n) false).outline s).1 = .ok p.statements := by
  have hpend : s.pending = ts ++ [] := hs.trans (List.append_nil ts).symm
  have hpasses : Parser.Passes m n (Parser.statements (.within n) false) s (pure p.statements) _ :=
    passes_stmts h hpend rfl rfl
  rcases hpasses with ⟨-, t, -, hrun⟩ | ⟨hlt, -⟩
  · rw [hrun]
    rfl
  · omega

theorem Grammar.IsProgram.unique (hts : ∀ t ∈ ts, t.kind ≠ .eof) (h : IsProgram false ts p m)
    (h' : IsProgram false ts q n) : p = q := by
  -- levels enough for both, and the parser has one result
  have hp := h.outline_statements (Nat.le_max_left m n) ⟨ts, .eof .null, hts, rfl⟩ rfl
  have hq := h'.outline_statements (Nat.le_max_right m n) ⟨ts, .eof .null, hts, rfl⟩ rfl
  exact congrArg Program.mk (Except.ok.inj (hp.symm.trans hq))

end Unique

/-! ### Canonical texts -/

/-- **Canonical texts are unique**: two well-formed programs, of any size and
nesting, have the same canonical text if and only if they are the same but
for their annotations. -/
theorem render_eq_render_iff (p : Program α) (q : Program β) (hp : p.wellFormed)
    (hq : q.wellFormed) : p.render = q.render ↔ p.bare = q.bare := by
  constructor
  · intro heq
    -- one list of tokens for the two texts
    have hts := map_piece_tokensOf (pieces p.render.toList)
    obtain ⟨p', m, hp', -, hpbare⟩ := exists_isProgram_of_pieces hp hts
    obtain ⟨q', n, hq', -, hqbare⟩ := exists_isProgram_of_pieces hq (heq ▸ hts)
    have hne : ∀ t ∈ tokensOf (pieces p.render.toList), t.kind ≠ .eof :=
      List.forall_mem_map.mpr (kind_ne_eof_of_mem_pieces p.render.toList)
    rw [← hpbare, ← hqbare, hp'.unique hne (heq ▸ hq')]
  · intro hbare
    rw [← p.render_bare, hbare, q.render_bare]

/-- Two sources for one program have one canonical text, and two programs that
are too deep to be read have two. -/
theorem render_eq_render_iff_examples :
    (let p := (parseSource "shell" "a - b - c").program
     let q := (parseSource "script" "((a - b)) - c; // to the left").program
     p ≠ q ∧ p.render = q.render) ∧
    (Program.mk [Stmt.expression () (negations 200)]).render ≠
      (Program.mk [Stmt.expression () (negations 201)]).render := by
  constructor
  · intro p q
    exact ⟨by decide +kernel, (render_eq_render_iff p q (by decide +kernel) (by decide +kernel)).mpr
      (by decide +kernel)⟩
  · intro heq
    exact absurd ((render_eq_render_iff _ _ (by decide +kernel) (by decide +kernel)).mp heq)
      (by decide +kernel)

end LetFn
