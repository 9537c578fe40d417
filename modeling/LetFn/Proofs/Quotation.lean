/-
LetFn/Proofs/Quotation.lean

The text of an expression, on its own.

What a source says from the start of an expression's span to its end is the
text of the expression but for brackets at its ends: where an operand or a
callee in brackets stands there, one of its brackets is outside of the span.
How many there are is a matter of how the expression is written
(`Grammar.Bracketing`), and they are the partners of just those brackets that
have none in the text.

Cut out of the source and put between so many brackets (`bracketed`), the text
makes the tokens of the expression again, from the brackets around it on one side
to those on the other one (`Cut.map_piece_bracketed`), and so it is read as that
expression (`exists_parseSource`).  It also makes all of them, however long the
source is: in front of the text there is no more than in the source.

Main statement: `exists_quotation`.
-/
import LetFn.Proofs.Brackets
import LetFn.Proofs.Tiling.Cutting

namespace LetFn

open LetFn.Text (byteCount byteCount_append)

variable {file file' source : String}
variable {ts us pre core post : List Token}
variable {e : ParsedExpr}

/-! ### Texts between brackets -/

/-- The text between so many opening brackets and so many closing ones. -/
def bracketed (front : Nat) (text : String) (back : Nat) : String :=
  String.ofList (List.replicate front '(') ++ text ++ String.ofList (List.replicate back ')')

theorem bracketed_zero (text : String) : bracketed 0 text 0 = text := by
  show "" ++ text ++ "" = text
  rw [String.empty_append, String.append_empty]

theorem toList_bracketed (front : Nat) (text : List Char) (back : Nat) :
    (bracketed front (String.ofList text) back).toList =
      List.replicate front '(' ++ (text ++ List.replicate back ')') := by
  rw [bracketed, String.toList_append, String.toList_append, String.toList_ofList,
    String.toList_ofList, String.toList_ofList, List.append_assoc]

/-- The end of a source is no bracket. -/
theorem unmatched_tokenize (file source : String) :
    unmatched (tokenize file source) = unmatched (TokenStream.ofSource file source).pending := by
  have hlast : Matched [(TokenStream.ofSource file source).last] :=
    .cons (TokenStream.kind_last _) rfl .nil
  rw [tokenize, TokenStream.toList, hlast.unmatched_front]

/-- In an accepted source every bracket has its partner. -/
theorem matched_tokenize (h : (parseSource file source).errors = []) :
    Matched (tokenize file source) := by
  obtain ⟨n, -, hprogram⟩ := Grammar.isProgram_parse false (.ofSource file source) fun _ => h
  rw [Matched, unmatched_tokenize]
  exact Grammar.matched_stmts hprogram

/-! ### Brackets as tokens -/

theorem begins_openParen (rest : List Char) : Begins [] ['('] rest .openParen :=
  ⟨.nil, '(', [], rfl, rfl, rfl⟩

theorem begins_closeParen (rest : List Char) : Begins [] [')'] rest .closeParen :=
  ⟨.nil, ')', [], rfl, rfl, rfl⟩

/-- Tokens of a kind that is spelled in one way only. -/
theorem map_piece_of_spelling {k : Kind} {s : String} (hts : ∀ t ∈ ts, t.Spelled)
    (hk : ∀ t ∈ ts, t.kind = k) (hs : k.spelling? = some s) :
    ts.map Token.piece = List.replicate ts.length (k, s) := by
  refine List.map_eq_replicate_iff.mpr fun t ht => ?_
  rw [Token.piece, (hts t ht).spelling s (hk t ht ▸ hs), hk t ht]

/-- What some tokens say between so many opening brackets and so many closing ones. -/
def bracketedPieces (front : Nat) (ts : List Token) (back : Nat) : List (Kind × String) :=
  List.replicate front (.openParen, "(") ++
    (ts.map Token.piece ++ List.replicate back (.closeParen, ")"))

/-- What the tokens of an expression say, with the brackets around it. -/
theorem Passage.map_piece {s : Span} (h : Passage ts s pre core post)
    (hts : ∀ t ∈ ts, t.Spelled) :
    ts.map Token.piece = bracketedPieces pre.length core post.length := by
  rw [h.eq] at hts ⊢
  obtain ⟨hpre, hrest⟩ := List.forall_mem_append.mp hts
  obtain ⟨-, hpost⟩ := List.forall_mem_append.mp hrest
  rw [List.map_append, List.map_append, map_piece_of_spelling hpre h.opening rfl,
    map_piece_of_spelling hpost h.closing rfl, bracketedPieces]

/-- Tokens that say the same are the same once they stand nowhere. -/
theorem map_relocate_of_piece (h : ts.map Token.piece = us.map Token.piece) :
    ts.map (Token.relocate nowhere) = us.map (Token.relocate nowhere) := by
  have key (ts : List Token) : ts.map (Token.relocate nowhere) =
      (ts.map Token.piece).map fun w => ⟨w.1, w.2, .null⟩ := by
    rw [List.map_map]
    rfl
  rw [key, key, h]

/-! ### The tokens of a text between brackets -/

namespace Cursor

variable {offset : Nat}
variable {gap mid rest : List Char}

/-- A stretch that is cut out has the tokens of the stretch, and no others. -/
theorem Cut.unmatched_text (h : Cut file offset ts gap mid rest) (file' : String) :
    unmatched (tokenize file' (String.ofList mid)) = unmatched ts := by
  let s := TokenStream.ofSource file' (String.ofList mid)
  obtain ⟨us, hpending, hpieces⟩ :=
    h.portable file' 0 [] (Nat.zero_le _) (mayFollow_closing rest 0)
  rw [(stream_of_ended file' (.inl rfl)).1, List.append_nil, List.append_nil] at hpending
  have hs : s.pending = us := by
    rw [← hpending]
    exact congrArg (fun text => (stream ⟨file', 0, text⟩).pending) String.toList_ofList
  have hkinds := congrArg (List.map Prod.fst) hpieces
  rw [List.map_map, List.map_map] at hkinds
  rw [unmatched_tokenize, hs]
  exact unmatched_congr hkinds

/-- The tokens of a stretch with the brackets around it. -/
theorem Cut.map_piece_bracketed (h : Cut file offset core gap mid rest)
    (hpre : pre.length ≤ offset + byteCount gap)
    (hpost : ∀ m < post.length, offset + byteCount gap + byteCount mid + m ≤ maxOffset)
    (file' : String) :
    (TokenStream.ofSource file'
        (bracketed pre.length (String.ofList mid) post.length)).pending.map Token.piece =
      bracketedPieces pre.length core post.length := by
  let closers := List.replicate post.length ')'
  have hle : ∀ m < pre.length, 0 + m ≤ maxOffset := fun m hm => by
    have := h.le
    omega
  have hle' : ∀ m < post.length, 0 + pre.length + byteCount mid + m ≤ maxOffset := fun m hm => by
    have := hpost m hm
    omega
  -- one part of the text after the other, each with what is behind it
  obtain ⟨front, hfront, hfront'⟩ :=
    exists_pending_replicate begins_openParen rfl hle file' (mid ++ closers)
  obtain ⟨inner, hinner, hinner'⟩ :=
    h.portable file' (0 + pre.length) closers (by omega) (mayFollow_closing rest _)
  obtain ⟨back, hback, hback'⟩ := exists_pending_replicate begins_closeParen rfl hle' file' []
  rw [(stream_of_ended file' (.inl rfl)).1, List.append_nil, List.append_nil] at hback
  rw [TokenStream.ofSource, Cursor.ofSource, toList_bracketed, hfront, hinner, hback,
    List.map_append, List.map_append, hfront', hinner', hback', bracketedPieces]

end Cursor

/-! ### Reading an expression on its own -/

/-- Tokens that say what those of a source say, and have an end like it. -/
theorem relocate_eq_of_pieces {s : TokenStream}
    (h : s.pending.map Token.piece = (TokenStream.ofSource file source).pending.map Token.piece)
    (hlast : s.last.text = "EOF") :
    s.relocate nowhere = (TokenStream.ofSource file source).relocate nowhere := by
  ext1
  · exact map_relocate_of_piece h
  · exact Token.alike_iff.mp ⟨s.kind_last.trans (TokenStream.kind_last _).symm,
      hlast.trans (text_last_ofSource file source).symm⟩

namespace Grammar

/-- An expression by itself is read as a statement. -/
theorem parse_of_isExpr {stratum : Stratum} {n : Nat} {s : TokenStream}
    (h : IsExpr false stratum s.pending e n) (hn : n ≤ maxNesting) :
    ∃ o, parse s = ⟨⟨[.expression o e]⟩, []⟩ := by
  obtain ⟨x, later, hpending, -⟩ := h.first
  have hstmt : IsStmt false .eof s.pending (some (.expression ⟨x, .around s.pending⟩ e)) n :=
    .expression (h.loosen (Nat.zero_le _)) (.none (by decide) (by decide))
      (List.append_nil _).symm (hpending ▸ rfl)
  have hstmts : IsStmts false .eof (s.pending ++ []) _ (max n 0) := .cons hstmt .nil
  rw [List.append_nil, Nat.max_zero] at hstmts
  have hprogram : IsProgram false s.pending ⟨[.expression ⟨x, .around s.pending⟩ e]⟩ n := hstmts
  exact ⟨_, parse_eq_of_isProgram hprogram hn⟩

end Grammar

/-- The expression of the single statement that is read. -/
theorem exists_of_alike {p q : Parsed} {o : Origin} (h : p.Alike q)
    (hp : p = ⟨⟨[.expression o e]⟩, []⟩) :
    ∃ o' e', q = ⟨⟨[.expression o' e']⟩, []⟩ ∧ e'.render = e.render := by
  obtain ⟨⟨statements⟩, errors⟩ := q
  subst hp
  obtain rfl : errors = [] := List.map_eq_nil_iff.mp h.causes.symm
  obtain ⟨s, rfl, hs⟩ := List.map_eq_singleton_iff.mp (congrArg Program.statements h.program).symm
  -- a statement that is alike is an expression as well
  cases s with
  | expression o' e' =>
    have he := (Stmt.expression.inj hs).2
    refine ⟨o', e', rfl, ?_⟩
    rw [← Expr.render_map (Origin.relocate nowhere) e', he, Expr.render_map]
  | binding => cases hs
  | returning => cases hs
  | block => cases hs

/-- Some tokens of a source are an expression, and another source has tokens
that say the same, and no others: it is read as that expression. -/
theorem exists_parseSource {source' : String} {stratum : Grammar.Stratum} {n : Nat}
    (h : Grammar.IsExpr false stratum ts e n) (hn : n ≤ maxNesting)
    (hts : ∀ t ∈ ts, t ∈ (TokenStream.ofSource file source).pending)
    (hpieces : (TokenStream.ofSource file' source').pending.map Token.piece =
      ts.map Token.piece) :
    ∃ o e', parseSource file' source' = ⟨⟨[.expression o e']⟩, []⟩ ∧ e'.render = e.render := by
  let s := TokenStream.ofSource file source
  -- the tokens by themselves, with the end of their source behind them
  let own : TokenStream := ⟨ts, s.last, fun t ht => s.kind_pending t (hts t ht), s.kind_last⟩
  obtain ⟨o, hparse⟩ : ∃ o, parse own = ⟨⟨[.expression o e]⟩, []⟩ := Grammar.parse_of_isExpr h hn
  have hplace : own.relocate nowhere = (TokenStream.ofSource file' source').relocate nowhere :=
    relocate_eq_of_pieces hpieces.symm (text_last_ofSource file source)
  exact exists_of_alike (parsed_alike_of_relocate hplace) hparse

/-! ### Quotations -/

/-- What stands for an expression: the expression itself, or a name that is
bound or made a parameter. -/
def Node.expression? {α : Type} : Node α → Option (Expr α)
  | .expr e => some e
  | .name x => some (.identifier x)
  | .block _ | .stmt _ => none

theorem quotable_of_mem_nodes {node : Node Origin} (h : (parseSource file source).errors = [])
    (hnode : node ∈ (parseSource file source).program.nodes) (he : node.expression? = some e) :
    Grammar.Quotable (TokenStream.ofSource file source).pending maxNesting e := by
  obtain ⟨n, hn, hprogram⟩ := Grammar.isProgram_parse false (.ofSource file source) fun _ => h
  have hquotable := Grammar.quotable_nodes_stmts hprogram ⟨List.infix_refl _, hn⟩ node hnode
  cases node with
  | expr f => exact Option.some.inj he ▸ hquotable
  | name x => exact Option.some.inj he ▸ hquotable
  | block b => cases he
  | stmt s => cases he

/-- What stands between some opening brackets and some closing ones can be cut
out, and put between as many brackets again. -/
theorem exists_bracketed {front back : List Token} {text : List Char}
    (h : (Cursor.stream ⟨file, 0, text⟩).pending = front ++ pre ++ (core ++ (post ++ back)))
    (hne : core ≠ []) (file' : String) :
    ∃ n mid, StandsAt text mid n ∧ n ≤ maxOffset ∧
      Span.around core = .ofBytes file n (byteCount mid) ∧
      unmatched (tokenize file' (String.ofList mid)) = unmatched core ∧
      (TokenStream.ofSource file'
          (bracketed pre.length (String.ofList mid) post.length)).pending.map Token.piece =
        bracketedPieces pre.length core post.length := by
  obtain ⟨before, behind, rfl, hlength, hbehind⟩ := Cursor.exists_behind h
  obtain ⟨gap, mid, rest, rfl, hcut, hrest⟩ := Cursor.exists_cut hbehind hne
  -- there is room for the brackets where the source has its own
  have hpre : pre.length ≤ 0 + byteCount before + byteCount gap := by
    rw [List.length_append] at hlength
    omega
  have hpost : ∀ m < post.length,
      0 + byteCount before + byteCount gap + byteCount mid + m ≤ maxOffset :=
    fun m hm => Cursor.offset_le hrest hm
  refine ⟨0 + byteCount before + byteCount gap, mid, ?_, hcut.le, hcut.span,
    hcut.unmatched_text file', hcut.map_piece_bracketed hpre hpost file'⟩
  refine ⟨before ++ gap, rest, by simp only [List.append_assoc], ?_⟩
  rw [byteCount_append, Nat.zero_add]

/-- The text is what an accepted source says within the span of an expression,
and `front` opening brackets and `back` closing ones are what it lacks. -/
structure Quotation (file file' source : String) (e : ParsedExpr) (text : String)
    (front back : Nat) : Prop where
  /-- The span is that of the text in the source.  Its end may be too large to be
  recorded. -/
  stands : ∃ n ≤ maxOffset, e.origin.span = .ofBytes file n text.utf8ByteSize ∧
    StandsAt source.toList text.toList n
  /-- As the expression is written in the source, so many brackets stand around the
  operands and callees with which it begins, and around those with which it ends. -/
  written : ∃ ts, ts <:+: (TokenStream.ofSource file source).pending ∧
    Grammar.Bracketing 0 ts e front back
  /-- They are the partners of those brackets that have none in the text. -/
  lacking : unmatched (tokenize file' text) = ⟨front, back⟩
  /-- With them the text is read as that expression. -/
  read : ∃ o e', parseSource file' (bracketed front text back) =
    ⟨⟨[.expression o e']⟩, []⟩ ∧ e'.render = e.render
  /-- Without them it is not accepted. -/
  alone : (parseSource file' text).errors = [] ↔ front = 0 ∧ back = 0

/-- What stands at a place of a text, with a given size, is one thing. -/
theorem StandsAt.unique {text piece piece' : List Char} {n : Nat} (h : StandsAt text piece n)
    (h' : StandsAt text piece' n) (hsize : byteCount piece = byteCount piece') :
    piece = piece' := by
  obtain ⟨front, rest, htext, hn⟩ := h
  obtain ⟨front', rest', htext', hn'⟩ := h'
  have hdrop := Text.dropBytes?_eq_some_iff.mpr ⟨front, htext.trans (List.append_assoc ..), hn⟩
  have hdrop' := Text.dropBytes?_eq_some_iff.mpr ⟨front', htext'.trans (List.append_assoc ..), hn'⟩
  -- the one is a front of the other, and has as many bytes
  have hrest := Option.some.inj (hdrop.symm.trans hdrop')
  rcases List.append_eq_append_iff.mp hrest with ⟨ys, rfl, -⟩ | ⟨ys, rfl, -⟩
  · rw [byteCount_append] at hsize
    rw [Text.eq_nil_of_byteCount (Nat.left_eq_add.mp hsize), List.append_nil]
  · rw [byteCount_append] at hsize
    rw [Text.eq_nil_of_byteCount (Nat.add_eq_left.mp hsize), List.append_nil]

/-- The text is what stands in the source, where its end has been recorded. -/
theorem Quotation.text_eq {text text' : String} {front back n : Nat}
    (h : Quotation file file' source e text front back)
    (hspan : e.origin.span = .ofBytes file n text'.utf8ByteSize)
    (hlt : n + text'.utf8ByteSize < maxOffset) (hstands : StandsAt source.toList text'.toList n) :
    text = text' := by
  obtain ⟨m, hm, hspan', hstands'⟩ := h.stands
  have hsame := hspan'.symm.trans hspan
  have hstart : saturate m = saturate n := congrArg (·.start.offset) hsame
  have hstop : saturate (m + text.utf8ByteSize) = saturate (n + text'.utf8ByteSize) :=
    congrArg (·.stop.offset) hsame
  unfold saturate at hstart hstop
  -- neither the start nor the end of the text is cut off at the greatest offset
  obtain rfl : m = n := by omega
  have hsize : text.utf8ByteSize = text'.utf8ByteSize := by omega
  rw [← Text.byteCount_toList, ← Text.byteCount_toList] at hsize
  exact String.toList_inj.mp (hstands'.unique hstands hsize)

/-- **The text of an expression is that expression**, but for the brackets around
operands and callees at its edges.  What stands in an accepted source from the start
of an expression's span to its end, with as many brackets around it as stand there, is
read without errors as a single expression statement, and the expression has the same
canonical text.  So the text by itself is accepted exactly if no operand or callee at
an edge of the expression stands in brackets. -/
theorem exists_quotation (file file' source : String) {node : Node Origin}
    (h : (parseSource file source).errors = [])
    (hnode : node ∈ (parseSource file source).program.nodes) (he : node.expression? = some e) :
    ∃ text front back, Quotation file file' source e text front back := by
  obtain ⟨stratum, ts, m, pre, core, post, ⟨front, back, htokens⟩, hm, hexpr, hedged, hcore⟩ :=
    quotable_of_mem_nodes h hnode he
  have hts : ∀ t ∈ ts, t ∈ (TokenStream.ofSource file source).pending := fun t ht => by
    rw [← htokens]
    exact List.mem_append_left back (List.mem_append_right front ht)
  have hpending : (TokenStream.ofSource file source).pending =
      front ++ pre ++ (core ++ (post ++ back)) := by
    rw [← htokens, hedged.eq]
    simp only [List.append_assoc]
  -- cut the tokens out of the source, without the brackets that are outside of the span
  obtain ⟨n, mid, hstands, hle, haround, hunmatched, hpieces⟩ :=
    exists_bracketed hpending hedged.ne_nil file'
  rw [← hedged.map_piece fun t ht => spelled_ofSource file source t (hts t ht)] at hpieces
  -- the text, and what it comes to with its brackets
  have hlacking := hunmatched.trans hcore
  have hread := exists_parseSource hexpr hm hts hpieces
  refine ⟨String.ofList mid, pre.length, post.length, ⟨n, hle, ?_, ?_⟩,
    ⟨ts, ⟨front, back, htokens⟩, hedged.bracketing⟩, hlacking, hread, fun haccepted => ?_, ?_⟩
  · rw [Text.utf8ByteSize_ofList, ← haround]
    exact hedged.span
  · rw [String.toList_ofList]
    exact hstands
  · -- what is accepted lacks no bracket
    have hnone := hlacking.symm.trans (matched_tokenize haccepted)
    exact ⟨congrArg Unmatched.closing hnone, congrArg Unmatched.opening hnone⟩
  · -- no bracket to add, so the text itself is what is read
    rintro ⟨hpre, hpost⟩
    obtain ⟨o, e', hparse, -⟩ := hread
    rw [hpre, hpost, bracketed_zero] at hparse
    rw [hparse]

/-- The text of a product is `a + b) * c`, and it is read with a bracket before it. -/
theorem exists_quotation_example :
    let name (text : String) (n : Nat) : ParsedExpr :=
      .identifier ⟨.ofToken ⟨.identifier, text, .ofBytes "shell" n 1⟩, text⟩
    let plus : Token := ⟨.plus, "+", .ofBytes "shell" 3 1⟩
    let star : Token := ⟨.star, "*", .ofBytes "shell" 8 1⟩
    let sum : ParsedExpr := .binary ⟨plus, .ofBytes "shell" 1 5⟩ (name "a" 1) "+" (name "b" 5)
    let product : ParsedExpr := .binary ⟨star, .ofBytes "shell" 1 10⟩ sum "*" (name "c" 10)
    (parseSource "shell" "(a + b) * c").errors = [] ∧
      .expr product ∈ (parseSource "shell" "(a + b) * c").program.nodes ∧
      (Node.expr product).expression? = some product ∧
      Quotation "shell" "quoted" "(a + b) * c" product "a + b) * c" 1 0 := by
  intro name plus star sum product
  have haccepted : (parseSource "shell" "(a + b) * c").errors = [] := by decide +kernel
  have hmem : .expr product ∈ (parseSource "shell" "(a + b) * c").program.nodes := by
    decide +kernel
  obtain ⟨text, front, back, hquoted⟩ :=
    exists_quotation "shell" "quoted" "(a + b) * c" haccepted hmem rfl
  obtain rfl : text = "a + b) * c" :=
    hquoted.text_eq rfl (by decide) ⟨['('], [], rfl, rfl⟩
  obtain ⟨rfl, rfl⟩ := Unmatched.mk.inj
    (hquoted.lacking.symm.trans (show _ = Unmatched.mk 1 0 by decide +kernel))
  exact ⟨haccepted, hmem, rfl, hquoted⟩

/-- Without the bracket, which is outside of the product's span, its text is
not accepted. -/
theorem exists_text_not_accepted :
    (parseSource "shell" "(a + b) * c").errors = [] ∧
      (∃ node ∈ (parseSource "shell" "(a + b) * c").program.nodes,
        node.expression?.isSome ∧ node.origin.span = .ofBytes "shell" 1 10) ∧
      StandsAt "(a + b) * c".toList "a + b) * c".toList 1 ∧ "a + b) * c".utf8ByteSize = 10 ∧
      (parseSource "shell" "a + b) * c").errors ≠ [] := by
  refine ⟨by decide +kernel, by decide +kernel, ⟨['('], [], rfl, rfl⟩, rfl, by decide +kernel⟩

end LetFn
