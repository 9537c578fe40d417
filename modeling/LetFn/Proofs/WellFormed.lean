/-
LetFn/Proofs/WellFormed.lean

What is read from a source is well formed, whatever else is wrong with the
source: its names are names, its integers can be written as numerals, and its
operators are operators.

The reason is that every token of a source is spelled as its kind says
(`spelled_ofSource`), and that a tree of the grammar takes its texts from
tokens (`wellFormed_expr` and its companions).  The lax grammar does for
that, so statements that cannot be read are no harm.

Main statement: `wellFormed_parseSource`.
-/
import LetFn.Proofs.Canonical
import LetFn.Proofs.Grammar.Acceptance

namespace LetFn

variable {text : List Char} {c : Char} {k : Kind}

/-! ### Spelled tokens -/

/-- The text of a token is what its kind says. -/
structure Token.Spelled (t : Token) : Prop where
  name : t.kind = .identifier → isName t.text
  digits : t.kind = .number → t.text.toList.all Char.isDigit
  spelling : ∀ s, t.kind.spelling? = some s → t.text = s

theorem spelled_word (hc : isWordStart c) (ht : text.all isWordPart) (span : Span) :
    Token.Spelled ⟨(Kind.keyword? (String.ofList (c :: text))).getD .identifier,
      String.ofList (c :: text), span⟩ := by
  rcases hk : Kind.keyword? (String.ofList (c :: text)) with - | k
  · refine ⟨fun _ => ?_, nofun, nofun⟩
    exact isName_iff.mpr ⟨c, text, String.toList_ofList, hc, ht, hk⟩
  · -- a keyword is spelled as its kind, and is neither a name nor a numeral
    obtain ⟨hmem, hspelling⟩ := Kind.keyword?_eq_some_iff.mp hk
    refine ⟨?_, ?_, ?_⟩
    · rintro rfl
      cases hspelling
    · rintro rfl
      cases hspelling
    · intro s hs
      exact Option.some.inj (hspelling.symm.trans hs)

/-- A token of a kind with one spelling. -/
theorem spelled_of_spelling {s : String} (hk : k.spelling? = some s) (span : Span) :
    Token.Spelled ⟨k, s, span⟩ := by
  refine ⟨?_, ?_, fun t ht => Option.some.inj (hk.symm.trans ht)⟩
  · rintro rfl
    cases hk
  · rintro rfl
    cases hk

/-- A token is spelled as the lexeme that makes it. -/
theorem spelled_first (span : Span) : (Lexeme.first c text).tokenKind? = some k →
    Token.Spelled ⟨k, String.ofList (Lexeme.first c text).text, span⟩ := by
  have run (p : Char → Bool) : (text.takeWhile p).all p := List.all_takeWhile
  unfold Lexeme.first
  split
  · -- a word
    next hc =>
    rintro ⟨⟩
    exact spelled_word hc (run isWordPart) span
  split
  · -- a numeral
    next hc =>
    rintro ⟨⟩
    refine ⟨nofun, fun _ => ?_, nofun⟩
    rw [String.toList_ofList, List.all_cons, hc, run Char.isDigit]
    rfl
  split
  · -- blanks and comments make no token
    exact nofun
  split
  · exact nofun
  split
  · -- a mark
    next kind spelling hmark =>
    rintro ⟨⟩
    exact spelled_of_spelling (mark?_eq_some hmark).2.2 span
  · -- any other character is illegal, which no spelling is asked of
    rintro ⟨⟩
    exact ⟨nofun, nofun, nofun⟩

theorem spelled_next (c : Cursor) : c.next.1.Spelled := by
  have hend (place : Position) : (Token.eof place).Spelled := ⟨nofun, nofun, nofun⟩
  fun_induction Cursor.next c with
  | case1 c => exact hend _
  | case2 c x rest hc hle l kind hk => exact spelled_first _ hk
  | case3 c x rest hc hle l hk ih => exact ih
  | case4 c x rest hc hle => exact hend _

theorem spelled_stream (c : Cursor) : ∀ t ∈ c.stream.pending, t.Spelled := by
  fun_induction Cursor.stream c with
  | case1 c h => exact nofun
  | case2 c h later ih => exact List.forall_mem_cons.mpr ⟨spelled_next c, ih⟩

/-- Every token of a source is spelled as its kind says. -/
theorem spelled_ofSource (file source : String) :
    ∀ t ∈ (TokenStream.ofSource file source).pending, t.Spelled :=
  spelled_stream _

/-! ### Texts of spelled tokens -/

namespace Grammar

variable {lax : Bool}

/-- A numeral without a sign names no negative integer. -/
theorem integer?_of_digits {numeral : String} {value : Int} (hd : numeral.toList.all Char.isDigit)
    (h : Text.integer? numeral = some value) : 0 ≤ value ∧ value ≤ Text.maxInteger := by
  constructor
  · rw [Text.eq_of_integer?_of_digits hd h]
    exact Int.natCast_nonneg _
  · rw [Text.integer?, Option.filter_eq_some_iff] at h
    exact (of_decide_eq_true h.2).2

theorem unarySpelling {t : Token} (ht : t.Spelled) (hk : t.kind ∈ unaryOperators) :
    unarySpellings.contains t.text := by
  rcases List.mem_cons.mp hk with h | h
  · rw [ht.spelling "!" (by rw [h]; rfl)]
    decide
  · rw [ht.spelling "-" (by rw [List.mem_singleton.mp h]; rfl)]
    decide

theorem binarySpelling {t : Token} {stratum : Stratum} (ht : t.Spelled)
    (hk : t.kind ∈ stratum.operators) : binarySpellings.contains t.text := by
  -- each operator has one spelling, which its kind tells
  have key : ∃ s ∈ binarySpellings, t.kind.spelling? = some s := by
    revert hk
    cases stratum <;> cases t.kind <;> decide
  obtain ⟨s, hs, hk⟩ := key
  rw [ht.spelling s hk]
  exact List.contains_iff_mem.mpr hs

/-! ### Trees of spelled tokens -/

theorem wellFormed_items {xs : List (Name Origin)} {ts : List Token} (h : IsItems IsParameter ts xs)
    (ht : ∀ t ∈ ts, t.Spelled) : xs.all (isName ·.text) := by
  induction h with
  | one h =>
    obtain @⟨t, hk⟩ := h
    simp [(ht t List.mem_cons_self).name hk]
  | more _ _ h ih =>
    obtain @⟨t, hk⟩ := h
    rw [List.all_append, ih fun t ht' => ht t (List.mem_append_left _ ht')]
    simp [(ht t (by simp)).name hk]

theorem wellFormed_parameters {xs : List (Name Origin)} {ts : List Token}
    (h : IsList IsParameter ts xs) (ht : ∀ t ∈ ts, t.Spelled) : xs.all (isName ·.text) := by
  cases h with
  | none => rfl
  | items h => exact wellFormed_items h ht

theorem wellFormedEach_append {α : Type} (es es' : List (Expr α)) :
    Expr.wellFormedEach (es ++ es') = (Expr.wellFormedEach es && Expr.wellFormedEach es') := by
  induction es with
  | nil => rfl
  | cons e es ih =>
    rw [List.cons_append, Expr.wellFormedEach, ih, Expr.wellFormedEach, Bool.and_assoc]

mutual

theorem wellFormed_expr {stratum : Stratum} {ts : List Token} {e : ParsedExpr} {n : Nat}
    (h : IsExpr lax stratum ts e n) (ht : ∀ t ∈ ts, t.Spelled) : e.wellFormed := by
  match h with
  | .tighter h => exact wellFormed_expr h ht
  | .binary hl hop hr =>
    simp only [List.forall_mem_append, List.forall_mem_cons] at ht
    obtain ⟨hleft, hoperator, hright⟩ := ht
    rw [Expr.wellFormed, binarySpelling hoperator hop, wellFormed_expr hl hleft,
      wellFormed_expr hr hright]
    rfl
  | .unary hop he =>
    rw [List.forall_mem_cons] at ht
    rw [Expr.wellFormed, unarySpelling ht.1 hop, wellFormed_expr he ht.2]
    rfl
  | .call hf _ hes _ =>
    simp only [List.forall_mem_append, List.forall_mem_cons] at ht
    obtain ⟨hcallee, -, hargs, -⟩ := ht
    rw [Expr.wellFormed, wellFormed_expr hf hcallee, wellFormed_arguments hes hargs]
    rfl
  | .identifier hk => exact (ht _ List.mem_cons_self).name hk
  | .integer hk hvalue =>
    have hlimits := integer?_of_digits ((ht _ List.mem_cons_self).digits hk) hvalue
    rw [Expr.wellFormed, decide_eq_true hlimits.1, decide_eq_true hlimits.2]
    rfl
  | .true _ => rfl
  | .false _ => rfl
  | .group _ he _ =>
    simp only [List.forall_mem_append, List.forall_mem_cons] at ht
    exact wellFormed_expr he ht.2.1
  | .conditional _ _ hc _ hb hf hts =>
    subst hts
    simp only [List.forall_mem_append, List.forall_mem_cons] at ht
    obtain ⟨-, -, hcondition, -, hconsequence, helse⟩ := ht
    rw [Expr.wellFormed, wellFormed_expr hc hcondition, wellFormed_block hb hconsequence,
      wellFormed_alternative hf helse]
    rfl
  | .function _ _ hxs _ hb hts =>
    subst hts
    simp only [List.forall_mem_append, List.forall_mem_cons] at ht
    obtain ⟨-, -, hnames, -, hbody⟩ := ht
    rw [Expr.wellFormed, wellFormed_parameters hxs hnames, wellFormed_block hb hbody]
    rfl

theorem wellFormed_arguments {ts : List Token} {es : List ParsedExpr} {n : Nat}
    (h : IsArguments lax ts es n) (ht : ∀ t ∈ ts, t.Spelled) : Expr.wellFormedEach es := by
  match h with
  | .none => rfl
  | .one he =>
    rw [Expr.wellFormedEach, wellFormed_expr he ht]
    rfl
  | .more hes _ _ he =>
    simp only [List.forall_mem_append, List.forall_mem_cons] at ht
    rw [wellFormedEach_append, wellFormed_arguments hes ht.1, Expr.wellFormedEach,
      wellFormed_expr he ht.2.2]
    rfl

theorem wellFormed_alternative {ts : List Token} {f : Option ParsedBlock} {n : Nat}
    (h : IsAlternative lax ts f n) (ht : ∀ t ∈ ts, t.Spelled) : Block.wellFormedElse f := by
  match h with
  | .none => rfl
  | .some _ hb =>
    rw [List.forall_mem_cons] at ht
    exact wellFormed_block hb ht.2

theorem wellFormed_block {ts : List Token} {b : ParsedBlock} {n : Nat} (h : IsBlock lax ts b n)
    (ht : ∀ t ∈ ts, t.Spelled) : b.wellFormed := by
  match h with
  | .braces _ hs _ =>
    simp only [List.forall_mem_append, List.forall_mem_cons] at ht
    rw [Block.wellFormed, Stmt.wellFormedEach_eq_all]
    exact List.all_eq_true.mpr (wellFormed_stmts hs ht.2.1)

theorem wellFormed_stmt {next : Kind} {ts : List Token} {found : Option ParsedStmt} {n : Nat}
    (h : IsStmt lax next ts found n) (ht : ∀ t ∈ ts, t.Spelled) : ∀ s ∈ found, s.wellFormed := by
  match h with
  | .empty _ => exact nofun
  | .block hb =>
    rintro _ ⟨⟩
    exact wellFormed_block hb ht
  | .binding _ hname _ he _ hts =>
    -- a binding tells the name that it makes, and its value is an expression of its own tokens
    subst hts
    simp only [List.forall_mem_append, List.forall_mem_cons] at ht
    obtain ⟨-, hspelled, -, hvalue, -⟩ := ht
    rintro _ ⟨⟩
    rw [Stmt.wellFormed, hspelled.name hname, wellFormed_expr he hvalue]
    rfl
  | .returning _ he _ hts =>
    subst hts
    simp only [List.forall_mem_append, List.forall_mem_cons] at ht
    rintro _ ⟨⟩
    exact wellFormed_expr he ht.2.1
  | .expression he _ hts _ =>
    subst hts
    rw [List.forall_mem_append] at ht
    rintro _ ⟨⟩
    exact wellFormed_expr he ht.1

theorem wellFormed_stmts {next : Kind} {ts : List Token} {ss : List ParsedStmt} {n : Nat}
    (h : IsStmts lax next ts ss n) (ht : ∀ t ∈ ts, t.Spelled) : ∀ s ∈ ss, s.wellFormed := by
  match h with
  | .nil => exact nofun
  | .cons h hs =>
    rw [List.forall_mem_append] at ht
    refine List.forall_mem_append.mpr ⟨fun s hs => ?_, wellFormed_stmts hs ht.2⟩
    exact wellFormed_stmt h ht.1 s (Option.mem_toList.mp hs)
  | .skip _ hs =>
    rw [List.forall_mem_append] at ht
    exact wellFormed_stmts hs ht.2

end

/-- Whatever the source, what is read from it is well formed. -/
theorem wellFormed_parseSource (file source : String) :
    (parseSource file source).program.wellFormed := by
  obtain ⟨n, -, h⟩ := isProgram_parse true (.ofSource file source) nofun
  exact List.all_eq_true.mpr (wellFormed_stmts h (spelled_ofSource file source))

end Grammar

end LetFn
