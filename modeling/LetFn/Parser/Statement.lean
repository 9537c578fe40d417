/-
LetFn/Parser/Statement.lean

Reading statements, sequences of statements, and blocks.

A statement stops on its last token, which is the semicolon if one follows.
A lone semicolon is an empty statement and leaves nothing in the tree.

A sequence of statements never fails: a statement that cannot be read is a
failure among the events and skipped, and reading goes on behind it.  So a block fails only for
want of its closing brace.
-/
import LetFn.Parser.Expression
import LetFn.Parser.Recovery

namespace LetFn

namespace Parser

/-! ### Single statements -/

/-- A name and the value bound to it. -/
def binding (inner : Nested) : Parser ParsedStmt := do
  let keyword ← current
  let name ← expect .identifier
  let _ ← expect .assignment
  advance
  let value ← inner.expression .lowest
  accept .semicolon
  let last ← current
  return .binding ⟨keyword, keyword.span.cover last.span⟩ ⟨.ofToken name, name.text⟩ value

/-- A value that is returned. -/
def returning (inner : Nested) : Parser ParsedStmt := do
  let keyword ← current
  advance
  let value ← inner.expression .lowest
  accept .semicolon
  let last ← current
  return .returning ⟨keyword, keyword.span.cover last.span⟩ value

/-- An expression as a statement. -/
def expressionStatement (inner : Nested) : Parser ParsedStmt := do
  let first ← current
  let value ← inner.expression .lowest
  accept .semicolon
  let last ← current
  return .expression ⟨first, first.span.cover last.span⟩ value

/-- A block as a statement. -/
def blockStatement (inner : Nested) : Parser ParsedStmt := do
  let body ← inner.block
  return .block body

/-- A statement that begins with a token of its own. -/
def formed (inner : Nested) : StatementForm → Parser ParsedStmt
  | .binding => binding inner
  | .returning => returning inner
  | .block => blockStatement inner

/-- The statement at the current token; nothing for a lone semicolon. -/
def statement (inner : Nested) : Parser (Option ParsedStmt) := do
  let first ← current
  announce first
  if first.kind = .semicolon then return none
  else
    match first.kind.statementForm? with
    | some form => return some (← formed inner form)
    | none => return some (← expressionStatement inner)

theorem run_statement_of_semicolon {s : TokenStream} (inner : Nested)
    (hk : s.current.kind = .semicolon) :
    (statement inner).run s = ⟨.ok none, s, [.statement s.current]⟩ := by
  simp only [statement, run_bind, run_current, run_announce, run_pure, after_ok, hk, if_true,
    List.nil_append, List.append_nil]

/-! ### Sequences of statements -/

/-- Does a sequence of statements end at a token of this kind? -/
def endsSequence (inBlock : Bool) (kind : Kind) : Bool :=
  kind = .eof || (inBlock && kind = .closeCurly)

theorem ne_eof_of_not_endsSequence {inBlock : Bool} {kind : Kind}
    (h : ¬ endsSequence inBlock kind) : kind ≠ .eof := by
  rintro rfl
  exact h rfl

/-- The run of `statements`. -/
def runStatements (inner : Nested) (inBlock : Bool) (s : TokenStream) :
    Outcome (List ParsedStmt) :=
  if _ends : endsSequence inBlock s.current.kind then ⟨[], s, []⟩
  else
    let o := (statement inner).run s
    match o.value with
    | .ok found =>
      let later := runStatements inner inBlock o.rest.advance
      ⟨found.toList ++ later.value, later.rest, o.events ++ o.rest.sight :: later.events⟩
    | .error e =>
      let skipped := skipStatement inBlock 0 o.rest
      let events := o.events ++ .failure e :: skipped.events
      -- on the closing brace the sequence is over, and elsewhere it goes on behind the token
      if skipped.value then ⟨[], skipped.rest, events⟩
      else
        let later := runStatements inner inBlock skipped.rest.advance
        ⟨later.value, later.rest, events ++ skipped.rest.sight :: later.events⟩
termination_by s.pending.length
decreasing_by
  · exact TokenStream.length_advance_lt_of_le ((statement inner).rest_le s)
      (ne_eof_of_not_endsSequence _ends)
  · exact TokenStream.length_advance_lt_of_le
      (TokenStream.le_trans (rest_skipStatement_le ..) ((statement inner).rest_le s))
      (ne_eof_of_not_endsSequence _ends)

section Turns

variable {inner : Nested} {inBlock : Bool} {s : TokenStream}

theorem runStatements_of_ends (h : endsSequence inBlock s.current.kind) :
    runStatements inner inBlock s = ⟨[], s, []⟩ := by
  rw [runStatements, dif_pos h]

theorem runStatements_of_ok (h : ¬ endsSequence inBlock s.current.kind) {found : Option ParsedStmt}
    (hv : ((statement inner).run s).value = .ok found) :
    runStatements inner inBlock s =
      let o := (statement inner).run s
      let later := runStatements inner inBlock o.rest.advance
      ⟨found.toList ++ later.value, later.rest, o.events ++ o.rest.sight :: later.events⟩ := by
  rw [runStatements, dif_neg h]
  simp only [hv]

/-- Skipping has come to the closing brace, with which the sequence is over. -/
theorem runStatements_of_closing (h : ¬ endsSequence inBlock s.current.kind) {e : Diagnostic}
    (hv : ((statement inner).run s).value = .error e)
    (hc : (skipStatement inBlock 0 ((statement inner).run s).rest).value) :
    runStatements inner inBlock s =
      let o := (statement inner).run s
      let skipped := skipStatement inBlock 0 o.rest
      ⟨[], skipped.rest, o.events ++ .failure e :: skipped.events⟩ := by
  rw [runStatements, dif_neg h]
  simp only [hv, hc, if_true]

theorem runStatements_of_error (h : ¬ endsSequence inBlock s.current.kind) {e : Diagnostic}
    (hv : ((statement inner).run s).value = .error e)
    (hc : (skipStatement inBlock 0 ((statement inner).run s).rest).value = false) :
    runStatements inner inBlock s =
      let o := (statement inner).run s
      let skipped := skipStatement inBlock 0 o.rest
      let later := runStatements inner inBlock skipped.rest.advance
      ⟨later.value, later.rest,
        o.events ++ .failure e :: skipped.events ++ skipped.rest.sight :: later.events⟩ := by
  rw [runStatements, dif_neg h]
  simp only [hv, hc, Bool.false_eq_true, if_false]

end Turns

theorem rest_runStatements (inner : Nested) (inBlock : Bool) (s : TokenStream) :
    (runStatements inner inBlock s).rest =
      s.behind (runStatements inner inBlock s).events := by
  fun_induction runStatements inner inBlock s with
  | case1 s h => rfl
  | case2 s h o found hv later ih =>
    rw [ih, TokenStream.behind_append, TokenStream.behind_sight, ← (statement inner).rest_eq s]
  | case3 s h o e hv skipped events hc =>
    exact (behind_skipStatement ((statement inner).rest_eq s)).symm
  | case4 s h o e hv skipped events hc later ih =>
    rw [ih, TokenStream.behind_append, behind_skipStatement ((statement inner).rest_eq s),
      TokenStream.behind_sight]

/-- All statements up to the end of the block, or else of the source. -/
def statements (inner : Nested) (inBlock : Bool) : Parser (List ParsedStmt) :=
  always (runStatements inner inBlock) (rest_runStatements inner inBlock)

/-! ### Blocks -/

/-- The statements between the current token, an opening brace, and the
closing brace. -/
def block (inner : Nested) : Parser ParsedBlock := do
  let opening ← current
  advance
  let body ← statements inner true
  let closing ← current
  if closing.kind = .closeCurly then
    return ⟨⟨opening, opening.span.cover closing.span⟩, body⟩
  else fail ⟨.unexpectedToken .closeCurly closing.kind, closing.span.start⟩

/-- A block comes to its statements, if they end with its closing brace. -/
theorem run_block (inner : Nested) (s : TokenStream) :
    (block inner).run s =
      let o := runStatements inner true s.advance
      let closing := o.rest.current
      ⟨if closing.kind = .closeCurly then
          .ok ⟨⟨s.current, s.current.span.cover closing.span⟩, o.value⟩
        else .error ⟨.unexpectedToken .closeCurly closing.kind, closing.span.start⟩,
        o.rest, s.sight :: o.events⟩ := by
  by_cases hc : (runStatements inner true s.advance).rest.current.kind = .closeCurly
  · simp [block, statements, hc]
  · simp [block, statements, hc]

end Parser

end LetFn
