/-
LetFn/Proofs/Provenance.lean

Whatever is read from a source is made of the tokens of that source, also
where statements had to be skipped.

A node is attested by some tokens if its own token is one of them, of a kind
that can make such a node, and if the node says what that token says: a name
and an operator by their text, an integer by the value of its digits, a truth
value by its kind.  Blocks, calls and statements say nothing of their own;
only the kind of their token counts.

A tree of the grammar is put together from its tokens, and so is the list of
its nodes: `attested_expr` and its companions follow the derivation, for the
lax grammar, which holds of broken sources too.

Main statement: `attested_of_mem_nodes`.
-/
import LetFn.Proofs.WellFormed
import LetFn.Tree.Nodes

namespace LetFn

variable {tokens : List Token}

/-! ### Attested nodes -/

/-- The operators with two operands. -/
def binaryOperators : List Kind :=
  [.equals, .notEquals, .less, .greater, .plus, .dash, .star, .slash]

/-- The token of the node is one of the tokens, and of one of the kinds. -/
structure Origin.Marks (tokens : List Token) (kinds : List Kind) (o : Origin) : Prop where
  mem : o.token ∈ tokens
  kind : o.token.kind ∈ kinds

/-- The name is the text of its token, and a word that is not a keyword. -/
structure Name.Attested (tokens : List Token) (name : Name Origin) : Prop where
  marks : name.origin.Marks tokens [.identifier]
  text : name.text = name.origin.token.text
  isName : isName name.text

/-- The integer is the value of the digits of its token, and within the limits. -/
structure Origin.AttestsInteger (tokens : List Token) (o : Origin) (value : Int) : Prop where
  marks : o.Marks tokens [.number]
  digits : ∃ n : Nat, Text.digitsValue? o.token.text.toList = some n ∧ value = n
  nonneg : 0 ≤ value
  le : value ≤ Text.maxInteger

/-- The operator is the text of its token, as the kind of the token is spelled. -/
structure Origin.AttestsOperator (tokens : List Token) (kinds : List Kind) (o : Origin)
    (operator : String) : Prop where
  marks : o.Marks tokens kinds
  text : operator = o.token.text
  spelling : o.token.kind.spelling? = some operator

/-- The node says what its token says, which is one of the tokens. -/
def Node.Attested (tokens : List Token) : Node Origin → Prop
  | .name x => x.Attested tokens
  | .expr (.identifier x) => x.Attested tokens
  | .expr (.integer o value) => o.AttestsInteger tokens value
  | .expr (.boolean o value) =>
    o.Marks tokens [.kwTrue, .kwFalse] ∧ (value = true ↔ o.token.kind = .kwTrue)
  | .expr (.unary o operator _) => o.AttestsOperator tokens Grammar.unaryOperators operator
  | .expr (.binary o _ operator _) => o.AttestsOperator tokens binaryOperators operator
  | .expr (.conditional o ..) => o.Marks tokens [.kwIf]
  | .expr (.function o ..) => o.Marks tokens [.kwFn]
  | .expr (.call o ..) => o.Marks tokens [.openParen]
  | .block body => body.origin.Marks tokens [.openCurly]
  | .stmt (.binding o ..) => o.Marks tokens [.kwLet]
  | .stmt (.returning o _) => o.Marks tokens [.kwReturn]
  -- an expression may begin with a token of many kinds
  | .stmt (.expression o _) => o.token ∈ tokens
  | .stmt (.block body) => body.origin.Marks tokens [.openCurly]

namespace Grammar

/-! ### Single tokens -/

/-- The token is one of the tokens, and spelled as its kind says. -/
def Witnessed (tokens : List Token) (t : Token) : Prop := t ∈ tokens ∧ t.Spelled

variable {t : Token}

theorem marks_token {k : Kind} {span : Span} (ht : Witnessed tokens t) (hk : t.kind = k) :
    Origin.Marks tokens [k] ⟨t, span⟩ :=
  ⟨ht.1, List.mem_singleton.mpr hk⟩

theorem attested_name (ht : Witnessed tokens t) (hk : t.kind = .identifier) :
    Name.Attested tokens ⟨.ofToken t, t.text⟩ :=
  ⟨marks_token ht hk, rfl, ht.2.name hk⟩

theorem attestsInteger {value : Int} (ht : Witnessed tokens t) (hk : t.kind = .number)
    (hvalue : Text.integer? t.text = some value) :
    Origin.AttestsInteger tokens (.ofToken t) value := by
  have hdigits := ht.2.digits hk
  obtain ⟨hmin, hmax⟩ := integer?_of_digits hdigits hvalue
  refine ⟨marks_token ht hk, ?_, hmin, hmax⟩
  -- without a sign, the digits are the whole numeral
  rw [Text.integer?, Text.signedValue?_of_digits hdigits, Option.filter_eq_some_iff,
    Option.map_eq_some_iff] at hvalue
  obtain ⟨⟨n, hn, rfl⟩, -⟩ := hvalue
  exact ⟨n, hn, rfl⟩

theorem attestsOperator {kinds : List Kind} {span : Span} (ht : Witnessed tokens t)
    (hk : t.kind ∈ kinds) (hspelled : t.kind.spelling?.isSome) :
    Origin.AttestsOperator tokens kinds ⟨t, span⟩ t.text := by
  obtain ⟨s, hs⟩ := Option.isSome_iff_exists.mp hspelled
  refine ⟨⟨ht.1, hk⟩, rfl, ?_⟩
  rw [ht.2.spelling s hs]
  exact hs

theorem attests_unaryOperator {span : Span} (ht : Witnessed tokens t)
    (hk : t.kind ∈ unaryOperators) :
    Origin.AttestsOperator tokens unaryOperators ⟨t, span⟩ t.text := by
  refine attestsOperator ht hk ?_
  revert hk
  cases t.kind <;> decide

theorem attests_binaryOperator {stratum : Stratum} {span : Span} (ht : Witnessed tokens t)
    (hk : t.kind ∈ stratum.operators) :
    Origin.AttestsOperator tokens binaryOperators ⟨t, span⟩ t.text := by
  have key : t.kind ∈ binaryOperators ∧ t.kind.spelling?.isSome := by
    revert hk
    cases stratum <;> cases t.kind <;> decide
  exact attestsOperator ht key.1 key.2

/-! ### Trees of the grammar -/

variable {lax : Bool} {ts : List Token} {n : Nat}

theorem attested_items {names : List (Name Origin)} (h : IsItems IsParameter ts names)
    (ht : ∀ t ∈ ts, Witnessed tokens t) : ∀ name ∈ names, name.Attested tokens := by
  induction h with
  | one h =>
    obtain @⟨t, hk⟩ := h
    exact List.forall_mem_singleton.mpr (attested_name (ht t List.mem_cons_self) hk)
  -- the names before the comma, and the one behind it
  | more _ _ h ih =>
    obtain @⟨t, hk⟩ := h
    simp only [List.forall_mem_append, List.forall_mem_cons] at ht
    obtain ⟨hbefore, -, hname, -⟩ := ht
    refine List.forall_mem_append.mpr ⟨ih hbefore, ?_⟩
    exact List.forall_mem_singleton.mpr (attested_name hname hk)

theorem attested_parameters {names : List (Name Origin)} (h : IsList IsParameter ts names)
    (ht : ∀ t ∈ ts, Witnessed tokens t) :
    ∀ node ∈ names.map Node.name, node.Attested tokens := by
  rw [List.forall_mem_map]
  cases h with
  | none => exact List.forall_mem_nil _
  | items h => exact attested_items h ht

mutual

theorem attested_expr {stratum : Stratum} {ts : List Token} {e : ParsedExpr} {n : Nat}
    (h : IsExpr lax stratum ts e n) (ht : ∀ t ∈ ts, Witnessed tokens t) :
    ∀ node ∈ e.nodes, node.Attested tokens := by
  match h with
  -- an expression of a tighter stratum makes no node of its own
  | .tighter h => exact attested_expr h ht
  | .binary hl hop hr =>
    simp only [List.forall_mem_append, List.forall_mem_cons] at ht
    obtain ⟨hleft, hoperator, hright⟩ := ht
    rw [Expr.nodes, List.forall_mem_cons, List.forall_mem_append]
    exact ⟨attests_binaryOperator hoperator hop, attested_expr hl hleft, attested_expr hr hright⟩
  | .unary hop he =>
    rw [List.forall_mem_cons] at ht
    rw [Expr.nodes, List.forall_mem_cons]
    exact ⟨attests_unaryOperator ht.1 hop, attested_expr he ht.2⟩
  -- the token of a call is its opening parenthesis, and not the callee's
  | .call hf hopen hes _ =>
    simp only [List.forall_mem_append, List.forall_mem_cons] at ht
    obtain ⟨hcallee, hopening, hargs, -⟩ := ht
    rw [Expr.nodes, List.forall_mem_cons, List.forall_mem_append]
    exact ⟨marks_token hopening hopen, attested_expr hf hcallee, attested_arguments hes hargs⟩
  -- leaves: the node of an expression that is one token
  | .identifier hk =>
    rw [List.forall_mem_singleton] at ht
    rw [Expr.nodes, List.forall_mem_singleton]
    exact attested_name ht hk
  | .integer hk hvalue =>
    rw [List.forall_mem_singleton] at ht
    rw [Expr.nodes, List.forall_mem_singleton]
    exact attestsInteger ht hk hvalue
  | .true hk =>
    rw [List.forall_mem_singleton] at ht
    rw [Expr.nodes, List.forall_mem_singleton]
    exact ⟨⟨ht.1, List.mem_cons.mpr (.inl hk)⟩, iff_of_true rfl hk⟩
  | .false hk =>
    rw [List.forall_mem_singleton] at ht
    rw [Expr.nodes, List.forall_mem_singleton]
    refine ⟨⟨ht.1, List.mem_cons_of_mem _ ?_⟩, ?_⟩
    · exact List.mem_singleton.mpr hk
    · -- the token is a `false`, so it is no `true`
      refine iff_of_false Bool.false_ne_true fun htrue => ?_
      cases hk.symm.trans htrue
  -- a group leaves nothing in the tree
  | .group _ he _ =>
    simp only [List.forall_mem_append, List.forall_mem_cons] at ht
    exact attested_expr he ht.2.1
  | .conditional hif _ hc _ hb hf hts =>
    subst hts
    simp only [List.forall_mem_append, List.forall_mem_cons] at ht
    obtain ⟨hkeyword, -, hcondition, -, hconsequence, helse⟩ := ht
    rw [Expr.nodes, List.forall_mem_cons, List.forall_mem_append, List.forall_mem_append]
    exact ⟨marks_token hkeyword hif, attested_expr hc hcondition, attested_block hb hconsequence,
      attested_alternative hf helse⟩
  | .function hfn _ hxs _ hb hts =>
    subst hts
    simp only [List.forall_mem_append, List.forall_mem_cons] at ht
    obtain ⟨hkeyword, -, hnames, -, hbody⟩ := ht
    rw [Expr.nodes, List.forall_mem_cons, List.forall_mem_append]
    exact ⟨marks_token hkeyword hfn, attested_parameters hxs hnames, attested_block hb hbody⟩

theorem attested_arguments {ts : List Token} {es : List ParsedExpr} {n : Nat}
    (h : IsArguments lax ts es n) (ht : ∀ t ∈ ts, Witnessed tokens t) :
    ∀ node ∈ Expr.nodesEach es, node.Attested tokens := by
  match h with
  | .none => exact List.forall_mem_nil _
  | .one he =>
    rw [Expr.nodesEach_singleton]
    exact attested_expr he ht
  | .more hes _ _ he =>
    simp only [List.forall_mem_append, List.forall_mem_cons] at ht
    rw [Expr.nodesEach_append, List.forall_mem_append, Expr.nodesEach_singleton]
    exact ⟨attested_arguments hes ht.1, attested_expr he ht.2.2⟩

theorem attested_alternative {ts : List Token} {f : Option ParsedBlock} {n : Nat}
    (h : IsAlternative lax ts f n) (ht : ∀ t ∈ ts, Witnessed tokens t) :
    ∀ node ∈ Block.nodesElse f, node.Attested tokens := by
  match h with
  | .none => exact List.forall_mem_nil _
  | .some _ hb =>
    rw [List.forall_mem_cons] at ht
    exact attested_block hb ht.2

theorem attested_block {ts : List Token} {b : ParsedBlock} {n : Nat} (h : IsBlock lax ts b n)
    (ht : ∀ t ∈ ts, Witnessed tokens t) : ∀ node ∈ b.nodes, node.Attested tokens := by
  match h with
  | .braces hopen hs _ =>
    simp only [List.forall_mem_append, List.forall_mem_cons] at ht
    obtain ⟨hopening, hbody, -⟩ := ht
    rw [Block.nodes, List.forall_mem_cons]
    exact ⟨marks_token hopening hopen, attested_stmts hs hbody⟩

theorem attested_stmt {next : Kind} {ts : List Token} {found : Option ParsedStmt} {n : Nat}
    (h : IsStmt lax next ts found n) (ht : ∀ t ∈ ts, Witnessed tokens t) :
    ∀ node ∈ Stmt.nodesEach found.toList, node.Attested tokens := by
  match h with
  -- a semicolon alone is no statement of the tree
  | .empty _ => exact List.forall_mem_nil _
  | .block hb =>
    rw [Option.toList_some, Stmt.nodesEach_singleton, Stmt.nodes]
    exact attested_block hb ht
  -- besides the keyword, a binding has a name to answer for
  | .binding hlet hname _ he _ hts =>
    subst hts
    simp only [List.forall_mem_append, List.forall_mem_cons] at ht
    obtain ⟨hkeyword, hbound, -, hvalue, -⟩ := ht
    rw [Option.toList_some, Stmt.nodesEach_singleton, Stmt.nodes,
      List.forall_mem_cons, List.forall_mem_cons]
    exact ⟨marks_token hkeyword hlet, attested_name hbound hname, attested_expr he hvalue⟩
  | .returning hreturn he _ hts =>
    subst hts
    simp only [List.forall_mem_append, List.forall_mem_cons] at ht
    obtain ⟨hkeyword, hvalue, -⟩ := ht
    rw [Option.toList_some, Stmt.nodesEach_singleton, Stmt.nodes, List.forall_mem_cons]
    exact ⟨marks_token hkeyword hreturn, attested_expr he hvalue⟩
  | .expression he _ hts hfirst =>
    -- its token is the first one of the expression, whatever kind that has
    have hmem := (ht _ (List.mem_of_head? hfirst)).1
    subst hts
    rw [List.forall_mem_append] at ht
    rw [Option.toList_some, Stmt.nodesEach_singleton, Stmt.nodes, List.forall_mem_cons]
    exact ⟨hmem, attested_expr he ht.1⟩

theorem attested_stmts {next : Kind} {ts : List Token} {ss : List ParsedStmt} {n : Nat}
    (h : IsStmts lax next ts ss n) (ht : ∀ t ∈ ts, Witnessed tokens t) :
    ∀ node ∈ Stmt.nodesEach ss, node.Attested tokens := by
  match h with
  | .nil => exact List.forall_mem_nil _
  | .cons h hs =>
    rw [List.forall_mem_append] at ht
    rw [Stmt.nodesEach_append, List.forall_mem_append]
    exact ⟨attested_stmt h ht.1, attested_stmts hs ht.2⟩
  -- what is skipped has no nodes
  | .skip _ hs =>
    rw [List.forall_mem_append] at ht
    exact attested_stmts hs ht.2

end

/-! ### Programs -/

/-- **Every node is attested by the source**, whatever is wrong with the
source: its token is one of the source, and of a kind that makes such a node;
names are words that are not keywords and the text of their token, integers
are the value of the digits of their token and within the limits, truth values
are told by the kind of their token, and operators are spelled as that kind. -/
theorem attested_of_mem_nodes (file source : String) {node : Node Origin}
    (h : node ∈ (parseSource file source).program.nodes) :
    node.Attested (tokenize file source) := by
  obtain ⟨n, -, hprogram⟩ := isProgram_parse true (.ofSource file source) nofun
  refine attested_stmts hprogram (fun t ht => ⟨?_, spelled_ofSource file source t ht⟩) node h
  exact List.mem_append_left _ ht

/-- Behind a binding without a name and an integer that is too large, a call
in a block is read, and with it the numeral `007`. -/
theorem attested_of_mem_nodes_example :
    let source := "let = 1; 9223372036854775808; { a(!b, 007) }"
    let o : Origin := .ofToken ⟨.number, "007", .ofBytes "shell" 38 3⟩
    (parseSource "shell" source).errors.length = 2 ∧
      .expr (.integer o 7) ∈ (parseSource "shell" source).program.nodes ∧
      Node.Attested (tokenize "shell" source) (.expr (.integer o 7)) := by
  intro source o
  have hmem : .expr (.integer o 7) ∈ (parseSource "shell" source).program.nodes := by
    decide +kernel
  exact ⟨by decide +kernel, hmem, attested_of_mem_nodes "shell" source hmem⟩

end Grammar

end LetFn
