/-
LetFn/Proofs/Diagnosis.lean

Every diagnostic describes the token at which it points.

A parser that fails blames the current token or the next one, and so does
every failure among its events.  Where that token stands and what the cause
says of it are taken from the same token, and no later step changes them.

`p.Blames s` says that whatever is wrong in a run of `p` on `s` is blamed on a
token of `s` in this sense.  There is a law for each way to put parsers
together and a lemma for each parser; what is read one level deeper is
`Blaming` by assumption, and `blaming_within` ties the knot.

In a source, no two tokens begin at the same place, so that a place is as
good as the token there.

Main statements: `pointsInto_parse`, and `errors_parseSource` for sources.
-/
import LetFn.Proofs.Tiling
import LetFn.Proofs.WellFormed
import LetFn.Text.Line

namespace LetFn

variable {α β : Type}
variable {s t : TokenStream}
variable {e : Diagnostic}

/-! ### Diagnostics of a token -/

/-- The cause says of the token what is wrong with it. -/
def Cause.Describes (t : Token) : Cause → Prop
  | unexpectedToken expected received => received = t.kind ∧ expected ≠ received
  | noExpression kind text => kind = t.kind ∧ text = t.text ∧ kind.lead? = none
  | badNumber text => t.kind = .number ∧ text = t.text ∧ Text.integer? text = none
  | tooDeep limit => limit = 128

/-- The diagnostic points at a token of the stream and describes it. -/
def Diagnostic.PointsInto (e : Diagnostic) (s : TokenStream) : Prop :=
  ∃ t ∈ s.toList, t.span.start = e.position ∧ e.cause.Describes t

namespace TokenStream

theorem toList_subset (h : t ≤ s) : t.toList ⊆ s.toList := by
  intro x hx
  -- the rest of a stream is a part of it, and both have one end
  rcases List.mem_append.mp hx with hx | hx
  · exact List.mem_append_left _ (h.2.subset hx)
  · exact List.mem_append_right _ (h.1 ▸ hx)

theorem current_mem_toList (s : TokenStream) : s.current ∈ s.toList := by
  rcases h : s.pending with - | ⟨x, rest⟩
  · simp [toList, current, h]
  · simp [toList, current, h]

theorem peek_mem_toList (s : TokenStream) : s.peek ∈ s.toList :=
  toList_subset s.advance_le s.advance.current_mem_toList

end TokenStream

/-- What points into the rest of a stream points into the whole. -/
theorem Diagnostic.PointsInto.mono (h : e.PointsInto t) (hle : t ≤ s) : e.PointsInto s := by
  obtain ⟨x, hx, hplace, hcause⟩ := h
  exact ⟨x, TokenStream.toList_subset hle hx, hplace, hcause⟩

namespace Parser

/-! ### Parsers that blame tokens -/

/-- Whatever is wrong in a run of `p` on `s`, be it with `p` as a whole or with
a statement on the way, is blamed on a token of `s` that is described. -/
structure Blames (p : Parser α) (s : TokenStream) : Prop where
  value : ∀ e, (p.run s).value = .error e → e.PointsInto s
  events : ∀ e ∈ errorsOf (p.run s).events, e.PointsInto s

section Laws

variable {p : Parser α} {f : α → Parser β} {a : α}

theorem blames_pure : (pure a : Parser α).Blames s where
  value := by simp
  events := by simp

theorem blames_fail (h : e.PointsInto s) : (fail e : Parser α).Blames s where
  value e' he := by
    obtain rfl : e = e' := by simpa using he
    exact h
  events := by simp

theorem Blames.congr {q : Parser α} (h : q.Blames s) (hrun : p.run s = q.run s) : p.Blames s :=
  ⟨hrun ▸ h.value, hrun ▸ h.events⟩

theorem Blames.bind (h : p.Blames s) (h' : ∀ a, (f a).Blames (p.run s).rest) :
    (p >>= f).Blames s := by
  have hle := p.rest_le s
  obtain ⟨hvalue, hevents⟩ := h
  rcases hrun : p.run s with ⟨e | a, t, events⟩
  · -- the first parser fails, and the second one is not run
    rw [hrun] at hvalue hevents
    refine ⟨fun e' he' => ?_, fun e' he' => ?_⟩
    · rw [run_bind, hrun, after_error] at he'
      exact hvalue e' (congrArg Except.error (Except.error.inj he'))
    · rw [run_bind, hrun, after_error] at he'
      exact hevents e' he'
  · -- the second one runs on the rest, and its tokens are tokens of the whole
    rw [hrun] at hevents hle h'
    obtain ⟨hvalue', hevents'⟩ := h' a
    refine ⟨fun e' he' => ?_, fun e' he' => ?_⟩
    · rw [run_bind, hrun, after_ok] at he'
      exact (hvalue' e' he').mono hle
    · rw [run_bind, hrun, after_ok, errorsOf_append, List.mem_append] at he'
      exact he'.elim (hevents e') fun he' => (hevents' e' he').mono hle

theorem blames_current {f : Token → Parser β} (h : (f s.current).Blames s) :
    (current >>= f).Blames s :=
  ⟨h.value, h.events⟩

theorem blames_peek {f : Token → Parser β} (h : (f s.peek).Blames s) : (peek >>= f).Blames s :=
  ⟨h.value, h.events⟩

theorem blames_advance : advance.Blames s where
  value := by simp
  events := by simp

theorem blames_announce {first : Token} {f : Unit → Parser β} (h : (f ()).Blames s) :
    (announce first >>= f).Blames s :=
  ⟨h.value, h.events⟩

/-- What is missing is blamed on the token that is there. -/
theorem blames_expect {kind : Kind} : (expect kind).Blames s := by
  apply blames_peek
  split
  · exact blames_advance.bind fun _ => blames_pure
  · -- the token that is there is of another kind than the one expected
    next hnext => exact blames_fail ⟨s.peek, s.peek_mem_toList, rfl, rfl, Ne.symm hnext⟩

theorem blames_accept {kind : Kind} : (accept kind).Blames s := by
  apply blames_peek
  split
  · exact blames_advance
  · exact blames_pure

theorem blames_foldPeek {more : Kind → Bool} {stops : more .eof = false} {step : α → Parser α}
    (hstep : ∀ a t, (step a).Blames t) : (foldPeek more stops step a).Blames s := by
  -- on the turns of the loop, each of which leaves less of the stream
  induction a, s using foldPeek_induction stops with
  | turn a s ih =>
    have hrun := run_foldPeek more stops step a s
    split at hrun
    · next hmore =>
      have hturn := blames_advance.bind fun _ => hstep a s.advance
      exact (hturn.bind fun b => ih hmore b _ ((step a).rest_le _)).congr hrun
    · exact blames_pure.congr hrun

end Laws

/-- Whatever is wrong one level deeper is blamed on a token. -/
structure Blaming (inner : Nested) : Prop where
  expression : ∀ p s, (inner.expression p).Blames s
  block : ∀ s, inner.block.Blames s

variable {inner : Nested}

/-! ### Leading parts -/

theorem blames_identifier : identifier.Blames s :=
  blames_current blames_pure

theorem blames_integer (hk : s.current.kind = .number) : integer.Blames s := by
  apply blames_current
  split
  · exact blames_pure
  · next hbad => exact blames_fail ⟨s.current, s.current_mem_toList, rfl, hk, rfl, hbad⟩

theorem blames_boolean : boolean.Blames s :=
  blames_current blames_pure

theorem blames_unary (hi : Blaming inner) : (unary inner).Blames s := by
  apply blames_current
  refine blames_advance.bind fun _ => ?_
  exact (hi.expression _ _).bind fun _ => blames_pure

theorem blames_group (hi : Blaming inner) : (group inner).Blames s := by
  refine blames_advance.bind fun _ => (hi.expression _ _).bind fun _ => ?_
  exact blames_expect.bind fun _ => blames_pure

theorem blames_alternative (hi : Blaming inner) : (alternative inner).Blames s := by
  apply blames_peek
  split
  · refine blames_advance.bind fun _ => blames_expect.bind fun _ => ?_
    exact (hi.block _).bind fun _ => blames_pure
  · exact blames_pure

theorem blames_conditional (hi : Blaming inner) : (conditional inner).Blames s := by
  apply blames_current
  refine blames_expect.bind fun _ => blames_advance.bind fun _ => ?_
  refine (hi.expression _ _).bind fun _ => ?_
  refine blames_expect.bind fun _ => blames_expect.bind fun _ => ?_
  refine (hi.block _).bind fun _ => (blames_alternative hi).bind fun _ => ?_
  exact blames_current blames_pure

theorem blames_separated {item : Parser α} (hitem : ∀ t, item.Blames t) :
    (separated .comma (by decide) item).Blames s := by
  refine (hitem s).bind fun _ => Blames.bind (blames_foldPeek fun _ t => ?_) fun _ => blames_pure
  exact (hitem t).bind fun _ => blames_pure

theorem blames_listed {item : Parser α} (hitem : ∀ t, item.Blames t) : (listed item).Blames s := by
  apply blames_peek
  split
  · exact blames_advance.bind fun _ => blames_pure
  · refine (blames_separated hitem).bind fun _ => ?_
    exact blames_expect.bind fun _ => blames_pure

theorem blames_parameter (t : TokenStream) : parameter.Blames t :=
  blames_expect.bind fun _ => blames_pure

theorem blames_function (hi : Blaming inner) : (function inner).Blames s := by
  apply blames_current
  refine blames_expect.bind fun _ => (blames_listed blames_parameter).bind fun _ => ?_
  refine blames_expect.bind fun _ => (hi.block _).bind fun _ => ?_
  exact blames_current blames_pure

/-- What begins no expression is blamed itself. -/
theorem blames_lead (hi : Blaming inner) : (lead inner).Blames s := by
  apply blames_current
  split
  · next form hform =>
    cases form with
    | identifier => exact blames_identifier
    | integer =>
      -- only a number is read as an integer
      apply blames_integer
      cases hk : s.current.kind
      case number => rfl
      all_goals rw [hk] at hform; cases hform
    | boolean => exact blames_boolean
    | unary => exact blames_unary hi
    | group => exact blames_group hi
    | conditional => exact blames_conditional hi
    | function => exact blames_function hi
  · -- no leading part goes with the kind of the token, and this is what the cause says
    next hform => exact blames_fail ⟨s.current, s.current_mem_toList, rfl, rfl, rfl, hform⟩

/-! ### Links -/

theorem blames_binary (hi : Blaming inner) {p : Precedence} {left : ParsedExpr} :
    (binary inner p left).Blames s := by
  apply blames_current
  refine blames_advance.bind fun _ => ?_
  exact (hi.expression _ _).bind fun _ => blames_pure

theorem blames_argument (hi : Blaming inner) (t : TokenStream) : (argument inner).Blames t :=
  blames_advance.bind fun _ => hi.expression _ _

theorem blames_call (hi : Blaming inner) {callee : ParsedExpr} : (call inner callee).Blames s := by
  apply blames_current
  refine (blames_listed (blames_argument hi)).bind fun _ => ?_
  exact blames_current blames_pure

theorem blames_link (hi : Blaming inner) (left : ParsedExpr) (t : TokenStream) :
    (link inner left).Blames t := by
  apply blames_current
  split
  · next form _ =>
    cases form with
    | binary => exact blames_binary hi
    | call => exact blames_call hi
  · exact blames_pure

theorem blames_expression (hi : Blaming inner) (p : Precedence) (s : TokenStream) :
    (expression inner p).Blames s :=
  (blames_lead hi).bind fun _ => blames_foldPeek (blames_link hi)

/-! ### Statements -/

theorem blames_binding (hi : Blaming inner) : (binding inner).Blames s := by
  apply blames_current
  refine blames_expect.bind fun _ => blames_expect.bind fun _ => blames_advance.bind fun _ => ?_
  refine (hi.expression _ _).bind fun _ => blames_accept.bind fun _ => ?_
  exact blames_current blames_pure

theorem blames_returning (hi : Blaming inner) : (returning inner).Blames s := by
  apply blames_current
  refine blames_advance.bind fun _ => (hi.expression _ _).bind fun _ => ?_
  exact blames_accept.bind fun _ => blames_current blames_pure

theorem blames_expressionStatement (hi : Blaming inner) :
    (expressionStatement inner).Blames s := by
  apply blames_current
  refine (hi.expression _ _).bind fun _ => ?_
  exact blames_accept.bind fun _ => blames_current blames_pure

theorem blames_formed (hi : Blaming inner) (form : StatementForm) :
    (formed inner form).Blames s := by
  cases form with
  | binding => exact blames_binding hi
  | returning => exact blames_returning hi
  | block => exact (hi.block s).bind fun _ => blames_pure

theorem blames_statement (hi : Blaming inner) : (statement inner).Blames s := by
  refine blames_current (blames_announce ?_)
  split
  · exact blames_pure
  · split
    · next form _ => exact (blames_formed hi form).bind fun _ => blames_pure
    · exact (blames_expressionStatement hi).bind fun _ => blames_pure

/-- Every statement that cannot be read is blamed on a token of the sequence. -/
theorem pointsInto_runStatements (hi : Blaming inner) (inBlock : Bool) (s : TokenStream) :
    ∀ e ∈ errorsOf (runStatements inner inBlock s).events, e.PointsInto s := by
  fun_induction runStatements inner inBlock s with
  | case1 s hends => simp
  -- a statement, and what is behind it
  | case2 s hends o found hfound later ih =>
    have hle : o.rest.advance ≤ s :=
      TokenStream.le_trans o.rest.advance_le ((statement inner).rest_le s)
    rw [errorsOf_append, errorsOf_sight]
    refine List.forall_mem_append.mpr ⟨(blames_statement hi).events, fun e he => ?_⟩
    exact (ih e he).mono hle
  -- a failure, behind which the closing brace is found: skipping reports nothing
  | case3 s hends o e he skipped events hskip =>
    obtain ⟨hvalue, hevents⟩ := blames_statement hi (s := s)
    rw [errorsOf_append, errorsOf_failure, errorsOf_skipStatement]
    refine List.forall_mem_append.mpr ⟨hevents, List.forall_mem_singleton.mpr (hvalue e he)⟩
  -- a failure, and what is read behind what was skipped
  | case4 s hends o e he skipped events hskip later ih =>
    obtain ⟨hvalue, hevents⟩ := blames_statement hi (s := s)
    have hle : skipped.rest.advance ≤ s :=
      TokenStream.le_trans skipped.rest.advance_le
        (TokenStream.le_trans (rest_skipStatement_le ..) ((statement inner).rest_le s))
    rw [errorsOf_append, errorsOf_sight, errorsOf_append, errorsOf_failure,
      errorsOf_skipStatement]
    refine List.forall_mem_append.mpr ⟨?_, fun e he => (ih e he).mono hle⟩
    exact List.forall_mem_append.mpr ⟨hevents, List.forall_mem_singleton.mpr (hvalue e he)⟩

theorem blames_statements (hi : Blaming inner) {inBlock : Bool} :
    (statements inner inBlock).Blames s where
  value := by simp [statements]
  events := pointsInto_runStatements hi inBlock s

/-- A block that is not closed is blamed on the token that stands there. -/
theorem blames_block (hi : Blaming inner) (s : TokenStream) : (block inner).Blames s := by
  apply blames_current
  refine blames_advance.bind fun _ => (blames_statements hi).bind fun _ => blames_current ?_
  split
  · exact blames_pure
  · next hclosing =>
    exact blames_fail ⟨_, TokenStream.current_mem_toList _, rfl, rfl, Ne.symm hclosing⟩

/-! ### Levels -/

theorem blames_tooDeep : (Nested.tooDeep : Parser α).Blames s :=
  blames_current (blames_fail ⟨s.current, s.current_mem_toList, rfl, rfl⟩)

theorem blaming_within (n : Nat) : Blaming (.within n) := by
  induction n with
  -- no level is left, and the token that asks for one is blamed
  | zero => exact ⟨fun _ _ => blames_tooDeep, fun _ => blames_tooDeep⟩
  | succ n ih => exact ⟨blames_expression ih, blames_block ih⟩

end Parser

/-! ### Programs -/

/-- Every error of a program points at a token of the stream and describes it. -/
theorem pointsInto_parse (s : TokenStream) : ∀ e ∈ (parse s).errors, e.PointsInto s :=
  Parser.pointsInto_runStatements (Parser.blaming_within maxNesting) false s

/-! ### Sources -/

variable {file source : String}

/-- Only the last token of a source may have no text. -/
theorem text_ne_empty_ofSource (file source : String) :
    ∀ t ∈ (TokenStream.ofSource file source).pending, t.text ≠ "" := by
  obtain ⟨stop, -, -, htiled⟩ := tiled_stream file 0 source.toList
  exact fun t ht => ((htiled [] rfl).standsIn t ht).1

/-- No token is recorded behind the end of its source. -/
theorem offset_le_of_mem_tokenize (file source : String) :
    ∀ t ∈ tokenize file source, t.span.start.offset ≤ source.utf8ByteSize := by
  obtain ⟨stop, hstop, hlast, htiled⟩ := tiled_stream file 0 source.toList
  have hle := hstop.le
  rw [Nat.zero_add, Text.byteCount_toList] at hle
  refine List.forall_mem_append.mpr ⟨fun t ht => ?_, List.forall_mem_singleton.mpr ?_⟩
  · have hfinish := (htiled [] rfl).finish_le.2 t ht
    have hstart := t.start_lt_finish (text_ne_empty_ofSource file source t ht)
    omega
  · -- the end is recorded where it is, or at an offset that is smaller
    rw [show (TokenStream.ofSource file source).last = _ from hlast]
    exact Nat.le_trans (Nat.min_le_left _ _) hle

/-- In a source whose offsets can all be recorded, each token begins behind
the ones before it, and where the source ends at the latest. -/
theorem starts_tokenize (file : String) (hsize : source.utf8ByteSize < UInt32.size) :
    (tokenize file source).Pairwise (fun t u => t.span.start.offset < u.span.start.offset) ∧
      ∀ t ∈ tokenize file source, t.span.start.offset ≤ source.utf8ByteSize := by
  obtain ⟨stop, hstop, -, htiled⟩ := tiled_stream file 0 source.toList
  replace htiled := htiled [] rfl
  have hle := hstop.le
  rw [Nat.zero_add, Text.byteCount_toList] at hle
  -- the size is such that the end is recorded where it is
  have hlast : (TokenStream.ofSource file source).last.span.start.offset = source.utf8ByteSize := by
    rw [TokenStream.last_ofSource file (Nat.le_sub_one_of_lt hsize)]
    exact saturate_of_le (Nat.le_sub_one_of_lt hsize)
  -- no token is empty, so the next one begins behind its start
  have hstart : ∀ t ∈ (TokenStream.ofSource file source).pending,
      t.span.start.offset < t.finish :=
    fun t ht => t.start_lt_finish (text_ne_empty_ofSource file source t ht)
  refine ⟨?_, offset_le_of_mem_tokenize file source⟩
  refine List.pairwise_append.mpr ⟨?_, List.pairwise_singleton _ _, fun t ht u hu => ?_⟩
  · exact htiled.pairwise.imp_of_mem fun ht _ hle => Nat.lt_of_lt_of_le (hstart _ ht) hle
  · have hfinish := htiled.finish_le.2 t ht
    rw [List.mem_singleton.mp hu, hlast]
    exact Nat.lt_of_lt_of_le (hstart t ht) (Nat.le_trans hfinish hle)

/-- Of tokens that begin one behind the other, one alone begins at its place. -/
theorem filter_start_eq {ts : List Token} {x : Token}
    (hts : ts.Pairwise fun t u => t.span.start.offset < u.span.start.offset) (hx : x ∈ ts) :
    ts.filter (fun t => t.span.start = x.span.start) = [x] := by
  obtain ⟨front, rest, rfl⟩ := List.append_of_mem hx
  obtain ⟨-, hrest, hfront⟩ := List.pairwise_append.mp hts
  have hother {t : Token} (h : t.span.start.offset ≠ x.span.start.offset) :
      ¬ decide (t.span.start = x.span.start) := fun hd => h (congrArg _ (of_decide_eq_true hd))
  -- the tokens in front begin earlier
  have hf : front.filter (fun t => t.span.start = x.span.start) = [] :=
    List.filter_eq_nil_iff.mpr fun t ht => hother (Nat.ne_of_lt (hfront t ht x List.mem_cons_self))
  -- those behind begin later
  have hr : rest.filter (fun t => t.span.start = x.span.start) = [] :=
    List.filter_eq_nil_iff.mpr fun t ht =>
      hother (Nat.ne_of_gt (List.rel_of_pairwise_cons hrest ht))
  rw [List.filter_append, hf, List.filter_cons, if_pos (decide_eq_true rfl), hr]
  rfl

/-- **Every diagnostic describes the token at which it points.**  Exactly one
token of the source begins at its place, there is a line at that place, and
what the cause says is what is wrong with the token.  A number that cannot be
read is a run of digits whose value is 2^63 at the least. -/
theorem errors_parseSource (file source : String) (hsize : source.utf8ByteSize < UInt32.size)
    (e : Diagnostic) (he : e ∈ (parseSource file source).errors) :
    ∃ t, (tokenize file source).filter (fun t => t.span.start = e.position) = [t] ∧
      (Text.lineAt? source.toList e.position.offset).isSome ∧ e.cause.Describes t ∧
      ∀ text, e.cause = .badNumber text → text.toList.all Char.isDigit ∧
        0x8000000000000000 ≤ Nat.ofDigitChars 10 text.toList 0 := by
  obtain ⟨hsorted, hends⟩ := starts_tokenize file hsize
  obtain ⟨t, ht, hplace, hcause⟩ := pointsInto_parse _ e he
  refine ⟨t, hplace ▸ filter_start_eq hsorted ht, ?_, hcause, fun text hbad => ?_⟩
  · rw [Text.isSome_lineAt?, ← Text.utf8ByteSize_ofList, String.ofList_toList, ← hplace]
    exact hends t ht
  · rw [hbad] at hcause
    obtain ⟨hk, rfl, hnone⟩ := hcause
    -- a number is not the end of the source
    have hpending : t ∈ (TokenStream.ofSource file source).pending := by
      rcases List.mem_append.mp ht with ht | ht
      · exact ht
      · rw [List.mem_singleton.mp ht, (TokenStream.ofSource file source).kind_last] at hk
        cases hk
    have hd := (spelled_ofSource file source t hpending).digits hk
    refine ⟨hd, ?_⟩
    -- there is no sign among digits, so the value is beyond the upper limit
    have hlt := Text.lt_of_integer?_eq_none (text_ne_empty_ofSource file source t hpending) hd hnone
    rw [Text.maxInteger] at hlt
    omega

/-- Errors of every kind, one of them in a block, and what each one points at. -/
theorem errors_parseSource_examples :
    let deep := String.ofList (List.replicate 129 '!') ++ "a"
    let source := "{ let 1 } 9223372036854775808; ) ; " ++ deep
    let errors := (parseSource "shell" source).errors
    source.utf8ByteSize < UInt32.size ∧
      errors.map (·.cause) = [.unexpectedToken .identifier .number,
        .badNumber "9223372036854775808", .noExpression .closeParen ")", .tooDeep 128] ∧
      ∀ e ∈ errors, ∃ t,
        (tokenize "shell" source).filter (fun t => t.span.start = e.position) = [t] ∧
        (Text.lineAt? source.toList e.position.offset).isSome ∧ e.cause.Describes t ∧
        ∀ text, e.cause = .badNumber text → text.toList.all Char.isDigit ∧
          0x8000000000000000 ≤ Nat.ofDigitChars 10 text.toList 0 := by
  intro deep source errors
  have hsize : source.utf8ByteSize < UInt32.size := by decide +kernel
  exact ⟨hsize, by decide +kernel, errors_parseSource "shell" source hsize⟩

end LetFn
