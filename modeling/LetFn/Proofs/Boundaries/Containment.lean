/-
LetFn/Proofs/Boundaries/Containment.lean

How far the damage goes that a broken statement does.

Outside of braces, a semicolon is the end of it: however broken the tokens
before the semicolon are, what stands behind it is read as if nothing stood
before.  A `let` or `return` is nearly as good.  The exception is a statement
that breaks off where an expression has to begin, as in `return let x = 1;`.
The failure is found on the keyword itself; skipping begins there, looks for
the next keyword from behind it, and the statement that the keyword begins is
lost.

Two runs are compared in both cases, of the tokens with something behind the
boundary and without.  They come out alike up to the boundary
(`readAlike_of_twins`), and then there are only two ways to go on: from the
boundary on, or, behind a failure on the boundary, from where skipping leads.

Main statements: `parseTokens_append_semicolon` and
`statements_parseTokens_append_keyword`.
-/
import LetFn.Proofs.Boundaries.Steady
import LetFn.Proofs.Braces.Blocks
import LetFn.Tree.Render

namespace LetFn

open LetFn.Parser

variable {x y s t : TokenStream}
variable {b : Nat}
variable {file : String}
variable {ts us vs : List Token}
variable {first : Token}

/-! ### Reports -/

/-- What is read of a source, and the failures with the places where they
leave the reader. -/
structure Report where
  statements : List ParsedStmt
  failures : List (TokenStream × Diagnostic)

namespace Report

/-- The errors of a report. -/
def errors (r : Report) : List Diagnostic := r.failures.map (·.2)

/-- One part of a source, and then the next one. -/
instance : Append Report :=
  ⟨fun q r => ⟨q.statements ++ r.statements, q.failures ++ r.failures⟩⟩

variable {p q r : Report}

@[simp] theorem statements_append : (q ++ r).statements = q.statements ++ r.statements := rfl

@[simp] theorem failures_append : (q ++ r).failures = q.failures ++ r.failures := rfl

@[simp] theorem errors_append : (q ++ r).errors = q.errors ++ r.errors :=
  List.map_append

theorem append_assoc : p ++ q ++ r = p ++ (q ++ r) :=
  congrArg₂ Report.mk (List.append_assoc ..) (List.append_assoc ..)

end Report

/-- The report of what a stream holds from the current token on. -/
def report (s : TokenStream) : Report :=
  let o := runStatements .outermost false s
  ⟨o.value, failures s o.events⟩

theorem parse_eq_report (s : TokenStream) :
    parse s = ⟨⟨(report s).statements⟩, (report s).errors⟩ := by
  rw [Report.errors, report, map_failures]
  rfl

theorem statements_parse (s : TokenStream) :
    (parse s).program.statements = (report s).statements := by
  rw [parse_eq_report]

theorem report_of_eof (h : s.current.kind = .eof) : report s = ⟨[], []⟩ := by
  rw [report, runStatements_of_ends (by rw [h]; rfl)]
  rfl

/-- A statement that can be read, and the rest. -/
theorem report_of_ok {found : Option ParsedStmt} (hs : s.current.kind ≠ .eof)
    (h : ((statement .outermost).run s).value = .ok found) :
    report s = ⟨found.toList, failures s ((statement .outermost).run s).events⟩ ++
      report ((statement .outermost).run s).rest.advance := by
  rw [report, runStatements_of_ok (by simpa [endsSequence] using hs) h]
  show Report.mk _ (failures s (_ ++ _)) = _
  rw [failures_append, ← (statement .outermost).rest_eq s]
  rfl

/-- Where reading goes on behind a failure that leaves the reader at `s`. -/
def resumed (s : TokenStream) : TokenStream := (skipStatement false 0 s).rest.advance

/-- A statement that cannot be read, and the rest. -/
theorem report_of_error {e : Diagnostic} (hs : s.current.kind ≠ .eof)
    (h : ((statement .outermost).run s).value = .error e) :
    report s = ⟨[], failures s ((statement .outermost).run s).events⟩ ++
      (⟨[], [(((statement .outermost).run s).rest, e)]⟩ ++
        report (resumed ((statement .outermost).run s).rest)) := by
  have hrest := (statement .outermost).rest_eq s
  rw [report, runStatements_of_error (by simpa [endsSequence] using hs) h
    (value_skipStatement_outside 0 _)]
  show Report.mk _ (failures s (_ ++ .failure e :: _ ++ _)) = _
  rw [failures_append, behind_skipStatement hrest, failures_append, ← hrest, failures_failure,
    failures_skipStatement, List.append_assoc]
  rfl

/-! ### Skipping outside of blocks -/

/-- Where reading goes on behind a boundary that is reached in good order: a
keyword is still to be read, and a semicolon is not. -/
def past (x : TokenStream) : TokenStream :=
  if x.current.kind = .kwLet ∨ x.current.kind = .kwReturn then x else x.advance

theorem past_of_semicolon (h : x.current.kind = .semicolon) : past x = x.advance :=
  if_neg (by rw [h]; decide)

theorem stopsBefore_outside_iff {k : Kind} :
    stopsBefore false b k ↔ b = 0 ∧ (k = .kwLet ∨ k = .kwReturn) := by
  simp [stopsBefore]

/-- Skipping stops before a boundary that is a keyword, and on any other one. -/
theorem skipStatement_before (hs : ¬ stopsOn false b s.current.kind)
    (hb : bracesAfter b s.current.kind = 0) (hx : s.peek.kind.isBoundary) :
    (skipStatement false b s).rest.advance = past s.advance := by
  unfold past
  split
  · next h =>
    rw [skipStatement_of_stopsBefore hs (stopsBefore_outside_iff.mpr ⟨hb, h⟩)]
  · next h =>
    rw [skipStatement_of_goesOn hs fun h' => h (stopsBefore_outside_iff.mp h').2, hb]
    -- the boundary is no keyword, so it is the end or a semicolon
    have hstop : stopsOn false 0 s.advance.current.kind := by
      have hk : s.advance.current.kind.isBoundary := hx
      cases hkind : s.advance.current.kind
      all_goals rw [hkind] at hk h
      case eof | semicolon => rfl
      case kwLet | kwReturn => simp at h
      all_goals cases hk
    rw [skipStatement_of_stopsOn hstop]

/-- Where skipping leads from the last token before the boundary. -/
theorem skipStatement_last (hxy : Alike x y) (h : Standing x y b s t)
    (hstop : ¬ stopsOn false b s.current.kind) (hb : bracesAfter b s.current.kind = 0)
    (hs : s.advance = x) (ht : t.advance = y) :
    (skipStatement false b s).rest.advance = past x ∧
      (skipStatement false b t).rest.advance = past y := by
  subst hs ht
  exact ⟨skipStatement_before hstop hb hxy.left,
    skipStatement_before (h.current ▸ hstop) (h.current ▸ hb) hxy.right⟩

/-- Outside of blocks, skipping goes on alike up to the boundary. -/
theorem skipStatement_twins_outside (hxy : Alike x y) (h : Standing x y b s t) :
    let next := (skipStatement false b s).rest.advance
    let next' := (skipStatement false b t).rest.advance
    Twins x y 0 next next' ∨ (next = past x ∧ next' = past y) := by
  fun_induction skipStatement false b s generalizing t
  case case1 b s hstop =>
    -- it stops on a token that both share
    rw [skipStatement_of_stopsOn (s := t) (h.current ▸ hstop)]
    exact .inl (h.behind.mono (Nat.zero_le _))
  case case2 b s hstop later hbefore =>
    -- it stops before the next token: the boundary, or one that both share
    rcases h.behind.cases with ⟨hb, hs, ht⟩ | hnext
    · have hlast := skipStatement_last hxy h hstop hb hs ht
      rw [skipStatement_of_stopsBefore hstop hbefore] at hlast
      exact .inr hlast
    · have hpeek : s.peek = t.peek := hnext.current
      rw [skipStatement_of_stopsBefore (s := t) (h.current ▸ hstop)
        (h.current ▸ hpeek ▸ hbefore)]
      exact .inl (h.behind.mono (Nat.zero_le _))
  case case3 b s hstop later hbefore o ih =>
    -- it goes on with the next token
    rcases h.behind.cases with ⟨hb, hs, ht⟩ | hnext
    · have hlast := skipStatement_last hxy h hstop hb hs ht
      rw [skipStatement_of_goesOn hstop hbefore] at hlast
      exact .inr hlast
    · have hpeek : s.peek = t.peek := hnext.current
      rw [skipStatement_of_goesOn (s := t) (h.current ▸ hstop) (h.current ▸ hpeek ▸ hbefore),
        ← h.current]
      exact ih hnext

/-! ### Two sources that are alike up to a boundary -/

/-- What does nothing, and the end. -/
theorem report_past (h : x.current.kind.isBoundary) : report (past x) = report x := by
  unfold past
  split
  · rfl
  · next hk =>
    cases hkind : x.current.kind
    all_goals rw [hkind] at h hk
    case kwLet | kwReturn => simp at hk
    -- the end is followed by the end
    case eof =>
      have hadvance : x.advance.current.kind = .eof := by
        have hp := TokenStream.kind_current_eq_eof_iff.mp hkind
        exact TokenStream.kind_current_eq_eof_iff.mpr (by rw [TokenStream.pending_advance, hp]; rfl)
      rw [report_of_eof hkind, report_of_eof hadvance]
    -- a semicolon is a statement that is empty
    case semicolon =>
      have hrun := run_statement_of_semicolon .outermost hkind
      rw [report_of_ok (by rw [hkind]; decide) (congrArg Outcome.value hrun), hrun]
      rfl
    all_goals cases h

/-- Two reports tell the same, up to what the boundary is; and none of the
failures of the second one leaves its reader at the end. -/
structure Report.Same (x y : TokenStream) (q r : Report) : Prop where
  statements : q.statements = r.statements
  errors : x.current = y.current → q.errors = r.errors
  inside : ∀ f ∈ r.failures, f.1.pending ≠ []

theorem Report.Same.append {p q r : Report} {p' : Report} (h : Report.Same x y p q)
    (h' : Report.Same x y p' r) : Report.Same x y (p ++ p') (q ++ r) where
  statements := congrArg₂ _ h.statements h'.statements
  errors heq := by rw [Report.errors_append, Report.errors_append, h.errors heq, h'.errors heq]
  inside f hf := (List.mem_append.mp hf).elim (h.inside f) (h'.inside f)

/-- The events of one statement, read on both sides. -/
theorem Report.Same.of_matches {events events' : List Event} (ss : List ParsedStmt)
    (h : Matches x y t events events') :
    Report.Same x y ⟨ss, LetFn.failures s events⟩ ⟨ss, LetFn.failures t events'⟩ where
  statements := rfl
  errors heq := by
    show List.map _ _ = List.map _ _
    rw [map_failures, map_failures, h.1 heq]
  inside := h.2

/-- A failure before the boundary. -/
theorem Report.Same.failure {e e' : Diagnostic} (he : x.current = y.current → e = e')
    (ht : t.current.kind ≠ .eof) : Report.Same x y ⟨[], [(s, e)]⟩ ⟨[], [(t, e')]⟩ where
  statements := rfl
  errors heq := congrArg (fun d => [d]) (he heq)
  inside f hf := by
    obtain rfl := List.mem_singleton.mp hf
    exact fun hp => ht (TokenStream.kind_current_eq_eof_iff.mpr hp)

/-- Up to the boundary, both sources are read alike.  Then they are read on
from the boundary, or else, behind a failure on it, from where skipping leads. -/
def ReadAlike (x y s t : TokenStream) : Prop :=
  ∃ q r, Report.Same x y q r ∧
    ((report s = q ++ report x ∧ report t = r ++ report y) ∨
      ∃ e e', (x.current = y.current → e = e') ∧
        report s = q ++ (⟨[], [(x, e)]⟩ ++ report (resumed x)) ∧
        report t = r ++ (⟨[], [(y, e')]⟩ ++ report (resumed y)))

theorem ReadAlike.refl : ReadAlike x y x y :=
  ⟨⟨[], []⟩, ⟨[], []⟩, ⟨rfl, fun _ => rfl, fun _ h => nomatch h⟩, .inl ⟨rfl, rfl⟩⟩

/-- One part more in front, on both sides. -/
theorem ReadAlike.after {s' t' : TokenStream} {p p' : Report} (h : ReadAlike x y s' t')
    (hsame : Report.Same x y p p') (hs : report s = p ++ report s')
    (ht : report t = p' ++ report t') : ReadAlike x y s t := by
  obtain ⟨q, r, hqr, ⟨hq, hr⟩ | ⟨e, e', he, hq, hr⟩⟩ := h
  · refine ⟨p ++ q, p' ++ r, hsame.append hqr, .inl ⟨?_, ?_⟩⟩
    · rw [hs, hq, Report.append_assoc]
    · rw [ht, hr, Report.append_assoc]
  · refine ⟨p ++ q, p' ++ r, hsame.append hqr, .inr ⟨e, e', he, ?_, ?_⟩⟩
    · rw [hs, hq, Report.append_assoc]
    · rw [ht, hr, Report.append_assoc]

theorem ReadAlike.past (hxy : Alike x y) : ReadAlike x y (past x) (past y) := by
  unfold ReadAlike
  rw [report_past hxy.left, report_past hxy.right]
  exact ReadAlike.refl

/-- Streams that are alike up to a boundary are read alike up to it. -/
theorem readAlike_of_twins (hxy : Alike x y) (h : Twins x y 0 s t) : ReadAlike x y s t := by
  -- on what is left in the first stream: each statement, and each skipping, takes
  -- a token away
  induction hn : s.pending.length using Nat.strongRecOn generalizing s t with
  | ind n ih =>
    subst hn
    rcases h.cases with ⟨-, rfl, rfl⟩ | h
    · exact .refl
    have hne : t.current.kind ≠ .eof := h.current ▸ h.ne_eof
    have hle := (statement .outermost).rest_le s
    have hi : Steady x y .outermost := steady_within hxy maxNesting
    obtain ⟨hmatch, ⟨found, hs, ht, hended⟩ | ⟨e, e', hs, ht, he, htwins⟩⟩ :=
      agrees_statement hxy hi h
    · -- both read a statement
      refine ReadAlike.after ?_ (.of_matches _ hmatch) (report_of_ok h.ne_eof hs)
        (report_of_ok hne ht)
      cases hended with
      | before hfollowing =>
        exact ih _ (TokenStream.length_advance_lt_of_le hle h.ne_eof) hfollowing.behind rfl
      | semicolon _ hk hx hy =>
        -- the statement has taken the boundary, a semicolon
        have hpast := ReadAlike.past hxy
        rw [past_of_semicolon hk, past_of_semicolon (hxy.semicolon (.inl hk) ▸ hk)] at hpast
        rw [hx, hy]
        exact hpast
    · -- both fail
      have hreport := report_of_error h.ne_eof hs
      have hreport' := report_of_error hne ht
      rcases htwins.cases with ⟨-, hx, hy⟩ | hrest
      · -- the failure is found on the boundary itself
        rw [hx] at hreport
        rw [hy] at hreport'
        exact ⟨_, _, .of_matches [] hmatch, .inr ⟨e, e', he, hreport, hreport'⟩⟩
      · -- the failure is found before the boundary, and skipping begins there
        have hne' : ((statement .outermost).run t).rest.current.kind ≠ .eof :=
          hrest.current ▸ hrest.ne_eof
        rw [← Report.append_assoc] at hreport hreport'
        refine ReadAlike.after ?_ ((Report.Same.of_matches [] hmatch).append (.failure he hne'))
          hreport hreport'
        rcases skipStatement_twins_outside hxy hrest with hnext | ⟨hx, hy⟩
        · have hle' := TokenStream.le_trans (rest_skipStatement_le false 0 _) hle
          exact ih _ (TokenStream.length_advance_lt_of_le hle' h.ne_eof) hnext rfl
        · unfold resumed
          rw [hx, hy]
          exact .past hxy

/-! ### A semicolon -/

/-- A source up to a semicolon, and what comes behind it. -/
theorem alike_semicolon (h : x.current.kind = .semicolon) (heq : x.current = y.current) :
    Alike x y := by
  have hk : Kind.semicolon.isBoundary := rfl
  exact ⟨h ▸ hk, heq ▸ h ▸ hk, fun _ => heq⟩

theorem resumed_of_semicolon (h : x.current.kind = .semicolon) : resumed x = x.advance := by
  rw [resumed, skipStatement_of_stopsOn (by rw [h]; rfl)]

/-- Two sources that are alike up to a semicolon come out alike up to behind it. -/
theorem exists_report_of_semicolon (h : Twins x y 0 s t) (hk : x.current.kind = .semicolon)
    (heq : x.current = y.current) :
    ∃ q r : Report, q.statements = r.statements ∧ q.errors = r.errors ∧
      report s = q ++ report x.advance ∧ report t = r ++ report y.advance := by
  have hk' : y.current.kind = .semicolon := heq ▸ hk
  have hxy := alike_semicolon hk heq
  obtain ⟨q, r, hsame, ⟨hs, ht⟩ | ⟨e, e', he, hs, ht⟩⟩ := readAlike_of_twins hxy h
  · -- in good order, or behind a failure on the semicolon
    rw [← report_past hxy.left, past_of_semicolon hk] at hs
    rw [← report_past hxy.right, past_of_semicolon hk'] at ht
    exact ⟨q, r, hsame.statements, hsame.errors heq, hs, ht⟩
  · rw [← Report.append_assoc, resumed_of_semicolon hk] at hs
    rw [← Report.append_assoc, resumed_of_semicolon hk'] at ht
    refine ⟨_, _, ?_, ?_, hs, ht⟩
    · rw [Report.statements_append, Report.statements_append, hsame.statements]
    · rw [Report.errors_append, Report.errors_append, hsame.errors heq]
      exact congrArg (fun d => r.errors ++ [d]) (he heq)

/-- Tokens with two different continuations. -/
theorem twins_ofTokens (file : String) (us vs : List Token) (hts : ∀ t ∈ ts, t.kind ≠ .eof)
    (hb : Balanced ts) (hus : us ≠ []) (hvs : vs ≠ []) :
    Twins (.ofTokens file us) (.ofTokens file vs) 0 (.ofTokens file (ts ++ us))
      (.ofTokens file (ts ++ vs)) :=
  ⟨ts, 0, TokenStream.pending_ofTokens_append file us hts,
    TokenStream.pending_ofTokens_append file vs hts, TokenStream.last_ofTokens_append hts hus,
    TokenStream.last_ofTokens_append hts hvs, balanced_iff.mp hb, Nat.le_refl 0⟩

theorem current_ofTokens_cons (file : String) (us : List Token) (h : first.kind ≠ .eof) :
    (TokenStream.ofTokens file (first :: us)).current = first := by
  simp [TokenStream.ofTokens, TokenStream.current, h]

/-- What stands behind the first token of a list is read like a list of its own. -/
theorem report_advance_ofTokens (file : String) (us : List Token) (h : first.kind ≠ .eof) :
    report (TokenStream.ofTokens file (first :: us)).advance =
      report (TokenStream.ofTokens file us) := by
  have hfirst : ∀ t ∈ [first], t.kind ≠ .eof := by simpa using h
  have hpending := TokenStream.pending_ofTokens_append file us hfirst
  rcases us with - | ⟨u, us⟩
  · -- the ends of the two streams differ, but nothing is read
    rw [report_of_eof (TokenStream.kind_current_eq_eof_iff.mpr _), report_of_eof rfl]
    rw [TokenStream.pending_advance]
    exact congrArg List.tail hpending
  · have hlast : (TokenStream.ofTokens file (first :: u :: us)).last = _ :=
      TokenStream.last_ofTokens_append hfirst (List.cons_ne_nil u us)
    exact congrArg report (TokenStream.ext (congrArg List.tail hpending) hlast)

/-- **Damage is contained at a semicolon**: however broken the tokens before
a semicolon outside of braces are, what is read of them does not depend on
what stands behind it, and what stands behind it is read as if it stood alone. -/
theorem parseTokens_append_semicolon (file : String) (ts us : List Token) (semicolon : Token)
    (hts : ∀ t ∈ ts, t.kind ≠ .eof) (hb : Balanced ts) (hk : semicolon.kind = .semicolon) :
    let before := parseTokens file (ts ++ [semicolon])
    let behind := parseTokens file us
    parseTokens file (ts ++ semicolon :: us) =
      ⟨⟨before.program.statements ++ behind.program.statements⟩,
        before.errors ++ behind.errors⟩ := by
  intro before behind
  have hne : semicolon.kind ≠ .eof := by
    rw [hk]
    decide
  have hcurrent (vs : List Token) :
      (TokenStream.ofTokens file (semicolon :: vs)).current = semicolon :=
    current_ofTokens_cons file vs hne
  -- the semicolon with what follows it, against the semicolon alone
  have htwins := twins_ofTokens file (semicolon :: us) [semicolon] hts hb
    (List.cons_ne_nil _ _) (List.cons_ne_nil _ _)
  obtain ⟨q, r, hstatements, herrors, hs, ht⟩ := exists_report_of_semicolon htwins
    (by rw [hcurrent, hk]) (by rw [hcurrent, hcurrent])
  rw [report_advance_ofTokens file us hne] at hs
  rw [report_advance_ofTokens file [] hne, report_of_eof (s := .ofTokens file []) rfl] at ht
  -- in the short run nothing is left behind the semicolon
  have hbefore : before = ⟨⟨q.statements⟩, q.errors⟩ := by
    show parse _ = _
    rw [parse_eq_report, ht, Report.statements_append, Report.errors_append, hstatements, herrors]
    exact congrArg₂ Parsed.mk (congrArg _ (List.append_nil _)) (List.append_nil _)
  show parse _ = _
  rw [parse_eq_report, hs, hbefore, show behind = _ from parse_eq_report _,
    Report.statements_append, Report.errors_append]

/-- Two broken statements and what follows them: the block ends too early, at the function
within it, and the binding has no value. -/
theorem parseTokens_append_semicolon_example :
    let s := TokenStream.ofSource "shell" "{ (fn() { } x) } let z = ; let y = 1 2"
    let ts := s.pending.take 13
    let semicolon := s.pending.getD 13 s.last
    let us := s.pending.drop 14
    let before := parseTokens "shell" (ts ++ [semicolon])
    let behind := parseTokens "shell" us
    s.pending = ts ++ semicolon :: us ∧ Balanced ts ∧ semicolon.kind = .semicolon ∧
      before.errors.length = 3 ∧
      before.program.statements.map Stmt.render = ["{ }", "x;"] ∧
      behind.program.statements.map Stmt.render = ["let y = 1;", "2;"] ∧
      parseTokens "shell" (ts ++ semicolon :: us) =
        ⟨⟨before.program.statements ++ behind.program.statements⟩,
          before.errors ++ behind.errors⟩ := by
  intro s ts semicolon us before behind
  have hb : Balanced ts := by decide +kernel
  have hk : semicolon.kind = .semicolon := by decide +kernel
  exact ⟨by decide +kernel, hb, hk, by decide +kernel, by decide +kernel, by decide +kernel,
    parseTokens_append_semicolon "shell" ts us semicolon (by decide +kernel) hb hk⟩

/-! ### A keyword -/

/-- Does a failure leave the reader at the end of the tokens?  That is so if
they break off where an expression has to begin. -/
def runsOut (file : String) (tokens : List Token) : Bool :=
  (report (.ofTokens file tokens)).failures.any fun f => f.1.pending.isEmpty

theorem TokenStream.kind_of_mem_nil : ∀ t ∈ ([] : List Token), t.kind ≠ .eof := by
  simp

/-- The end of a stream. -/
def TokenStream.ended (s : TokenStream) : TokenStream :=
  ⟨[], s.last, kind_of_mem_nil, s.kind_last⟩

/-- A keyword looks like the end of the source to what stands before it. -/
theorem alike_keyword (hx : x.current.kind = .kwLet ∨ x.current.kind = .kwReturn)
    (hy : y.current.kind = .eof) : Alike x y where
  left := by rcases hx with h | h <;> rw [h] <;> rfl
  right := by rw [hy]; rfl
  semicolon h := by rcases hx with h' | h' <;> rw [h', hy] at h <;> simp at h

theorem twins_ended (file : String) (us : List Token) (hts : ∀ t ∈ ts, t.kind ≠ .eof)
    (hb : Balanced ts) (hus : us ≠ []) :
    Twins (.ofTokens file us) (TokenStream.ofTokens file ts).ended 0 (.ofTokens file (ts ++ us))
      (.ofTokens file ts) := by
  have hpending := TokenStream.pending_ofTokens_append file [] hts
  rw [List.append_nil] at hpending
  exact ⟨ts, 0, TokenStream.pending_ofTokens_append file us hts, hpending,
    TokenStream.last_ofTokens_append hts hus, rfl, balanced_iff.mp hb, Nat.le_refl 0⟩

/-- Behind the end there is nothing to be read. -/
theorem report_resumed_ended (s : TokenStream) : report (resumed s.ended) = ⟨[], []⟩ := by
  have he : s.ended.current.kind = .eof := s.kind_last
  rw [resumed, skipStatement_of_stopsOn (by rw [he]; rfl)]
  exact report_of_eof s.kind_last

/-- **A keyword begins a statement of its own**, unless the tokens before it
break off where an expression has to begin: then the keyword is skipped, with
all that skipping takes away behind it. -/
theorem statements_parseTokens_append_keyword (file : String) (ts us : List Token)
    (keyword : Token) (hts : ∀ t ∈ ts, t.kind ≠ .eof) (hb : Balanced ts)
    (hk : keyword.kind = .kwLet ∨ keyword.kind = .kwReturn) :
    let before := (parseTokens file ts).program.statements
    let behind := TokenStream.ofTokens file (keyword :: us)
    let whole := (parseTokens file (ts ++ keyword :: us)).program.statements
    (runsOut file ts = false →
      whole = before ++ (parseTokens file (keyword :: us)).program.statements) ∧
    (runsOut file ts = true →
      whole = before ++ (parse (resumed behind)).program.statements) := by
  intro before behind whole
  have hcurrent : behind.current = keyword := by
    have hne : keyword.kind ≠ .eof := by rcases hk with h | h <;> rw [h] <;> decide
    exact current_ofTokens_cons file us hne
  -- the keyword with what follows it, against the end of the tokens before it
  let ended := (TokenStream.ofTokens file ts).ended
  have hended : report ended = ⟨[], []⟩ := report_of_eof (TokenStream.kind_lastOf file ts)
  have hxy : Alike behind ended :=
    alike_keyword (by rwa [hcurrent]) (TokenStream.kind_lastOf file ts)
  have htwins := twins_ended file (keyword :: us) hts hb (List.cons_ne_nil _ _)
  have hbefore : before = (report (.ofTokens file ts)).statements := statements_parse _
  have hwhole : whole = (report (.ofTokens file (ts ++ keyword :: us))).statements :=
    statements_parse _
  -- either both come to the boundary in good order, or both fail on it
  obtain ⟨q, r, hsame, ⟨hs, ht⟩ | ⟨e, e', -, hs, ht⟩⟩ := readAlike_of_twins hxy htwins
  · rw [hended] at ht
    -- no failure of the short run has left its reader at the end
    have hout : runsOut file ts = false := by
      rw [runsOut, ht, Report.failures_append, List.append_nil, List.any_eq_false]
      intro f hf
      simpa using hsame.inside f hf
    refine ⟨fun _ => ?_, fun h => absurd (hout.symm.trans h) (by decide)⟩
    rw [hwhole, hs, hbefore, ht, Report.statements_append, Report.statements_append,
      hsame.statements, List.append_nil]
    exact congrArg (r.statements ++ ·) (statements_parse behind).symm
  · -- the failure on the boundary leaves the reader of the short run at the end
    rw [report_resumed_ended] at ht
    have hout : runsOut file ts = true := by
      rw [runsOut, ht, List.any_eq_true]
      exact ⟨(ended, e'), by simp, rfl⟩
    refine ⟨fun h => absurd (hout.symm.trans h) (by decide), fun _ => ?_⟩
    rw [hwhole, hs, hbefore, ht, statements_parse]
    simp only [Report.statements_append, hsame.statements, List.append_nil, List.nil_append]

/-- A call without its `)` does no harm to the binding behind it; a `return` without a value
takes the binding away, up to its semicolon. -/
theorem statements_parseTokens_append_keyword_examples :
    (let s := TokenStream.ofSource "shell" "f(1, 2 let y = 1;"
     let ts := s.pending.take 5
     let keyword := s.pending.getD 5 s.last
     let us := s.pending.drop 6
     s.pending = ts ++ keyword :: us ∧ runsOut "shell" ts = false ∧
      (parseTokens "shell" (ts ++ keyword :: us)).program.statements =
        (parseTokens "shell" ts).program.statements ++
          (parseTokens "shell" (keyword :: us)).program.statements) ∧
    (let s := TokenStream.ofSource "shell" "return let x = 1; x"
     let ts := s.pending.take 1
     let keyword := s.pending.getD 1 s.last
     let us := s.pending.drop 2
     s.pending = ts ++ keyword :: us ∧ runsOut "shell" ts = true ∧
      (parseTokens "shell" (ts ++ keyword :: us)).program.statements =
        (parseTokens "shell" ts).program.statements ++
          (parse (resumed (.ofTokens "shell" (keyword :: us)))).program.statements) := by
  constructor
  · intro s ts keyword us
    have hout : runsOut "shell" ts = false := by decide +kernel
    refine ⟨by decide +kernel, hout, ?_⟩
    exact (statements_parseTokens_append_keyword "shell" ts us keyword (by decide +kernel)
      (by decide +kernel) (by decide +kernel)).1 hout
  · intro s ts keyword us
    have hout : runsOut "shell" ts = true := by decide +kernel
    refine ⟨by decide +kernel, hout, ?_⟩
    exact (statements_parseTokens_append_keyword "shell" ts us keyword (by decide +kernel)
      (by decide +kernel) (by decide +kernel)).2 hout

/-- A `return` without a value swallows the binding behind it. -/
theorem exists_keyword_swallowed :
    let s := TokenStream.ofSource "shell" "return let x = 1;"
    let ts := s.pending.take 1
    let us := s.pending.drop 1
    s.pending = ts ++ us ∧ (∀ t ∈ ts, t.kind ≠ .eof) ∧ Balanced ts ∧
      us.head?.map (·.kind) = some .kwLet ∧
      (parseTokens "shell" (ts ++ us)).program.statements ≠
        (parseTokens "shell" ts).program.statements ++
          (parseTokens "shell" us).program.statements := by
  decide +kernel

end LetFn
