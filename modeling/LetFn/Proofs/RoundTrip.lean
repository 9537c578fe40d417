/-
LetFn/Proofs/RoundTrip.lean

Reading undoes rendering, up to the limit of nesting.

The canonical text of a well-formed program is read back to the same program,
but for its annotations, as long as each statement of it needs no more levels
than there are; and otherwise the nesting is reported as too deep.

Canonical texts need levels that the sources they stand for may not need: the
operands of `a + b + c` are on one level, and those of `((a + b) + c)` are
not.  So a source can be accepted whose canonical text is not.  What is read
of a source has a canonical text that is stable exactly if it stays within
the limit.

Main statements: `parseSource_render` and `parseSource_render_parseSource`.
-/
import LetFn.Proofs.Spelling
import LetFn.Proofs.WellFormed

namespace LetFn

open Grammar

variable {α : Type}
variable {p : Program α}

/-! ### Within the limit, and beyond -/

theorem parseSource_render_of_le (hp : p.wellFormed) (file : String)
    (hsize : p.render.utf8ByteSize < UInt32.size) (h : ∀ s ∈ p.statements, s.levels ≤ maxNesting) :
    (parseSource file p.render).errors = [] ∧
      (parseSource file p.render).program.bare = p.bare := by
  obtain ⟨p', n, hp', rfl, hbare⟩ := exists_isProgram_render hp file (Nat.le_of_lt_succ hsize)
  have key := parse_eq_of_isProgram hp' (Stmt.levelsEach_le_iff.mpr h)
  rw [parseSource, key]
  exact ⟨rfl, hbare⟩

theorem exists_tooDeep_of_lt (hp : p.wellFormed) (file : String)
    (hsize : p.render.utf8ByteSize < UInt32.size) (h : ∃ s ∈ p.statements, maxNesting < s.levels) :
    ∃ d ∈ (parseSource file p.render).errors, d.cause = .tooDeep maxNesting := by
  obtain ⟨p', n, hp', rfl, -⟩ := exists_isProgram_render hp file (Nat.le_of_lt_succ hsize)
  -- one statement that is too deep makes the whole program so
  refine exists_tooDeep_of_isProgram hp' (Nat.lt_of_not_le fun hle => ?_)
  obtain ⟨s, hs, hlt⟩ := h
  exact absurd (Stmt.levelsEach_le_iff.mp hle s hs) (Nat.not_le_of_lt hlt)

/-! ### Reading what is rendered -/

/-- **Reading undoes rendering**: the canonical text of a well-formed program
is read without errors and as the same program, up to tokens and spans, if
every statement needs at most as many levels as there are; and if one needs
more, the nesting is reported as too deep. -/
theorem parseSource_render (p : Program α) (file : String) (hp : p.wellFormed)
    (hsize : p.render.utf8ByteSize < UInt32.size) :
    ((∀ s ∈ p.statements, s.levels ≤ maxNesting) →
      (parseSource file p.render).errors = [] ∧
        (parseSource file p.render).program.bare = p.bare) ∧
    ((∃ s ∈ p.statements, maxNesting < s.levels) →
      ∃ d ∈ (parseSource file p.render).errors, d.cause = .tooDeep maxNesting) :=
  ⟨parseSource_render_of_le hp file hsize, exists_tooDeep_of_lt hp file hsize⟩

/-- A variable behind so many negations. -/
def negations : Nat → Expr Unit
  | 0 => .identifier ⟨(), "a"⟩
  | n + 1 => .unary () "!" (negations n)

/-- `fn(x) {return (x * 2); }(7)` is read back, and 64 negations are not. -/
theorem parseSource_render_examples :
    (let double : Expr Unit :=
      .function () [⟨(), "x"⟩]
        ⟨(), [.returning () (.binary () (.identifier ⟨(), "x"⟩) "*" (.integer () 2))]⟩
     let p : Program Unit := ⟨[.expression () (.call () double [.integer () 7])]⟩
     (parseSource "shell" p.render).errors = [] ∧
      (parseSource "shell" p.render).program.bare = p.bare) ∧
    ∃ d ∈ (parseSource "shell" (Program.mk [Stmt.expression () (negations 64)]).render).errors,
      d.cause = .tooDeep maxNesting := by
  constructor
  · exact (parseSource_render _ "shell" (by decide +kernel) (by decide +kernel)).1
      (by decide +kernel)
  · exact (parseSource_render _ "shell" (by decide +kernel) (by decide +kernel)).2
      ⟨_, List.mem_cons_self, by decide +kernel⟩

/-! ### Rendering what is read -/

/-- **The canonical form is stable within the limit of nesting**: whatever the
source, the canonical text of what is read from it is read without errors if
and only if each statement of it needs at most as many levels as there are;
it then is the canonical text of as many statements again.  Otherwise the
nesting is reported as too deep. -/
theorem parseSource_render_parseSource (file source : String)
    (hsize : (parseSource file source).program.render.utf8ByteSize < UInt32.size) :
    let p := (parseSource file source).program
    let again := parseSource file p.render
    (again.errors = [] ↔ ∀ s ∈ p.statements, s.levels ≤ maxNesting) ∧
    (again.errors = [] → again.program.statements.length = p.statements.length ∧
      again.program.render = p.render) ∧
    (again.errors ≠ [] → ∃ d ∈ again.errors, d.cause = .tooDeep maxNesting) := by
  intro p again
  have hp : p.wellFormed := wellFormed_parseSource file source
  -- one or the other half of the round trip of a program that is well formed
  by_cases hlevels : ∀ s ∈ p.statements, s.levels ≤ maxNesting
  · obtain ⟨herrors, hbare⟩ := parseSource_render_of_le hp file hsize hlevels
    refine ⟨⟨fun _ => hlevels, fun _ => herrors⟩, fun _ => ⟨?_, ?_⟩, fun h => absurd herrors h⟩
    · have hlength := congrArg (·.statements.length) hbare
      simpa [Program.bare, Program.map] using hlength
    · rw [← again.program.render_bare, hbare, p.render_bare]
  · have hlt : ∃ s ∈ p.statements, maxNesting < s.levels := by
      simpa using hlevels
    obtain ⟨d, hmem, hd⟩ := exists_tooDeep_of_lt hp file hsize hlt
    have hne : again.errors ≠ [] := List.ne_nil_of_mem hmem
    exact ⟨⟨fun h => absurd h hne, fun h => absurd h hlevels⟩, fun h => absurd h hne,
      fun _ => ⟨d, hmem, hd⟩⟩

/-- A binding without a name is left out, and the rest is stable. -/
theorem parseSource_render_parseSource_partial :
    let p := (parseSource "shell" "let = 1; a - b - c").program
    let again := parseSource "shell" p.render
    again.errors = [] ∧ again.program.statements.length = p.statements.length ∧
      again.program.render = p.render := by
  have key := parseSource_render_parseSource "shell" "let = 1; a - b - c" (by decide +kernel)
  have herrors := key.1.mpr (by decide +kernel)
  exact ⟨herrors, key.2.1 herrors⟩

/-- A source that is accepted, and its canonical text that is not: 64 negations need 65 levels,
and 64 more when each of them stands in brackets. -/
theorem exists_accepted_render_not_accepted :
    let source := String.ofList (List.replicate 64 '!' ++ ['a'])
    let p := (parseSource "shell" source).program
    (parseSource "shell" source).errors = [] ∧ (parseSource "shell" p.render).errors ≠ [] := by
  intro source p
  refine ⟨by decide +kernel, ?_⟩
  have hdeep : ∃ s ∈ p.statements, maxNesting < s.levels := by decide +kernel
  have hp : p.wellFormed := wellFormed_parseSource "shell" source
  obtain ⟨d, hmem, -⟩ := exists_tooDeep_of_lt hp "shell" (by decide +kernel) hdeep
  exact List.ne_nil_of_mem hmem

end LetFn
