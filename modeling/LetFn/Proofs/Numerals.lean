/-
LetFn/Proofs/Numerals.lean

Numerals, the integers they name, and the limits of 64 bits.

Numerals are as long as they like.  What one names is said here digit by digit
(`DigitsName`, `NumeralNames`), without any limit and so without any overflow;
what is read is what is named, if it lies within the limits
(`integer?_eq_some_iff`).  The limits are not the same on both sides, and only a
token that was made by hand can carry a sign: what a source has of it is a token
of its own.

Zeros in front of a number add nothing to it, and they are what is lost when it
is written again (`trimZeros`, `DigitsName.decimal_eq`).

Main statement: `Reader.integers_exact`.
-/
import LetFn.Parser.Program
import LetFn.Proofs.Reading
import LetFn.Proofs.Tiling
import LetFn.Reader.Handlers
import LetFn.Tree.Render

namespace LetFn

/-! ### What numerals name -/

namespace Text

variable {digits more numeral : List Char}
variable {n : Nat} {z : Int} {c : Char}

/-- The number that some ASCII digits name.  A digit names its own value, and
one that follows others is added to ten times what these name. -/
inductive DigitsName : List Char → Nat → Prop
  | digit (c : Char) (h : c.isDigit) : DigitsName [c] (c.toNat - '0'.toNat)
  | append (digits : List Char) (n : Nat) (c : Char) (hdigits : DigitsName digits n)
      (h : c.isDigit) : DigitsName (digits ++ [c]) (10 * n + (c.toNat - '0'.toNat))

/-- The integer that digits name behind an optional sign. -/
inductive NumeralNames : List Char → Int → Prop
  | unsigned (digits : List Char) (n : Nat) (h : DigitsName digits n) : NumeralNames digits n
  | plus (digits : List Char) (n : Nat) (h : DigitsName digits n) : NumeralNames ('+' :: digits) n
  | minus (digits : List Char) (n : Nat) (h : DigitsName digits n) :
      NumeralNames ('-' :: digits) (-n)

theorem DigitsName.ne_nil (h : DigitsName digits n) : digits ≠ [] := by
  cases h with
  | digit c hc => exact List.cons_ne_nil _ _
  | append digits n c hdigits hc =>
    exact List.append_ne_nil_of_right_ne_nil _ (List.cons_ne_nil _ _)

theorem DigitsName.all (h : DigitsName digits n) : digits.all Char.isDigit := by
  induction h with
  | digit c hc => rw [List.all_cons, hc]; rfl
  | append digits n c _ hc ih => rw [List.all_append, ih, List.all_cons, hc]; rfl

/-- Digit after digit from the front comes to what the digits name. -/
theorem DigitsName.ofDigitChars (h : DigitsName digits n) : Nat.ofDigitChars 10 digits 0 = n := by
  induction h with
  | digit c _ => rw [Nat.ofDigitChars_cons, Nat.ofDigitChars_nil, Nat.mul_zero, Nat.zero_add]
  | append digits n c _ _ ih =>
    rw [Nat.ofDigitChars_append, ih, Nat.ofDigitChars_cons, Nat.ofDigitChars_nil]

theorem DigitsName.append_all (h : DigitsName digits n) (hmore : more.all Char.isDigit) :
    DigitsName (digits ++ more) (Nat.ofDigitChars 10 more n) := by
  induction more generalizing digits n with
  | nil => rwa [List.append_nil, Nat.ofDigitChars_nil]
  | cons c more ih =>
    rw [List.all_cons, Bool.and_eq_true] at hmore
    have hnext := ih (.append digits n c h hmore.1) hmore.2
    rwa [List.append_assoc, List.singleton_append, ← Nat.ofDigitChars_cons] at hnext

/-- All digits name a number. -/
theorem digitsName_ofDigitChars (hne : digits ≠ []) (hall : digits.all Char.isDigit) :
    DigitsName digits (Nat.ofDigitChars 10 digits 0) := by
  -- the first digit is a number by itself, and the others are appended
  rcases digits with - | ⟨c, digits⟩
  · exact absurd rfl hne
  · rw [List.all_cons, Bool.and_eq_true] at hall
    have h := (DigitsName.digit c hall.1).append_all hall.2
    rwa [Nat.ofDigitChars_cons, Nat.mul_zero, Nat.zero_add]

theorem digitsValue?_eq_some_iff : digitsValue? digits = some n ↔ DigitsName digits n := by
  constructor
  · intro h
    unfold digitsValue? at h
    split at h
    · next hdigits =>
      obtain rfl := Option.some.inj h
      exact digitsName_ofDigitChars hdigits.1 hdigits.2
    · cases h
  · intro h
    rw [digitsValue?, if_pos ⟨h.ne_nil, h.all⟩, h.ofDigitChars]

theorem signedValue?_eq_some_iff : signedValue? numeral = some z ↔ NumeralNames numeral z := by
  constructor
  · intro h
    unfold signedValue? at h
    split at h
    · -- a plus sign
      obtain ⟨n, hn, rfl⟩ := Option.map_eq_some_iff.mp h
      exact .plus _ n (digitsValue?_eq_some_iff.mp hn)
    · -- a minus sign
      obtain ⟨n, hn, rfl⟩ := Option.map_eq_some_iff.mp h
      exact .minus _ n (digitsValue?_eq_some_iff.mp hn)
    · -- no sign
      obtain ⟨n, hn, rfl⟩ := Option.map_eq_some_iff.mp h
      exact .unsigned _ n (digitsValue?_eq_some_iff.mp hn)
  · intro h
    cases h with
    | unsigned _ n h => rw [signedValue?_of_digits h.all, digitsValue?_eq_some_iff.mpr h]; rfl
    | plus digits n h => rw [signedValue?, digitsValue?_eq_some_iff.mpr h]; rfl
    | minus digits n h => rw [signedValue?, digitsValue?_eq_some_iff.mpr h]; rfl

/-- The text is a numeral, and names an integer of 64 bits. -/
def NamesInteger (numeral : String) (z : Int) : Prop :=
  NumeralNames numeral.toList z ∧ -0x8000000000000000 ≤ z ∧ z < 0x8000000000000000

theorem integer?_eq_some_iff {numeral : String} :
    integer? numeral = some z ↔ NamesInteger numeral z := by
  rw [integer?, Option.filter_eq_some_iff, signedValue?_eq_some_iff, decide_eq_true_iff,
    NamesInteger, minInteger, maxInteger]
  exact and_congr_right fun _ => and_congr_right fun _ => (Int.lt_add_one_iff (b := _)).symm

/-- Digits name an integer if what they name is not too large. -/
theorem namesInteger_of_digits {numeral : String} (h : DigitsName numeral.toList n) :
    NamesInteger numeral z ↔ z = n ∧ n < 0x8000000000000000 := by
  rw [NamesInteger, ← signedValue?_eq_some_iff, signedValue?_of_digits h.all,
    digitsValue?_eq_some_iff.mpr h, Option.map_some, Option.some.injEq]
  omega

/-! ### Zeros in front -/

/-- Digits without the zeros in front of them; of zeros alone, one is left. -/
def trimZeros : List Char → List Char
  | '0' :: c :: digits => trimZeros (c :: digits)
  | digits => digits

theorem digit_lt_ten (hc : c.isDigit) : c.toNat - '0'.toNat < 10 := by
  have hcode := toNat_of_isDigit hc
  have hzero : '0'.toNat = 48 := rfl
  omega

theorem digit_pos (hc : c.isDigit) (hne : c ≠ '0') : 0 < c.toNat - '0'.toNat := by
  have hcode := toNat_of_isDigit hc
  have hzero : '0'.toNat = 48 := rfl
  have : c.toNat ≠ '0'.toNat := fun h => hne (Char.toNat_inj.mp h)
  omega

theorem toDigits_of_isDigit (hc : c.isDigit) : Nat.toDigits 10 (c.toNat - '0'.toNat) = [c] := by
  have hcode := toNat_of_isDigit hc
  have hzero : '0'.toNat = 48 := rfl
  have hchar : Nat.digitChar (c.toNat - '0'.toNat) = c := by
    apply Char.toNat_inj.mp
    rw [Nat.toNat_digitChar_of_lt_ten (digit_lt_ten hc)]
    omega
  rw [Nat.toDigits_of_lt_base (digit_lt_ten hc), hchar]

/-- Behind a number other than zero, every digit counts. -/
theorem toDigits_append_digits (hn : 0 < n) (hall : digits.all Char.isDigit) :
    Nat.toDigits 10 n ++ digits = Nat.toDigits 10 (Nat.ofDigitChars 10 digits n) := by
  induction digits generalizing n with
  | nil => rw [List.append_nil, Nat.ofDigitChars_nil]
  | cons c digits ih =>
    rw [List.all_cons, Bool.and_eq_true] at hall
    calc Nat.toDigits 10 n ++ c :: digits
      _ = (Nat.toDigits 10 n ++ Nat.toDigits 10 (c.toNat - '0'.toNat)) ++ digits := by
        rw [toDigits_of_isDigit hall.1, List.append_assoc, List.singleton_append]
      _ = Nat.toDigits 10 (10 * n + (c.toNat - '0'.toNat)) ++ digits := by
        rw [Nat.toDigits_append_toDigits (by decide) hn (digit_lt_ten hall.1)]
      _ = Nat.toDigits 10 (Nat.ofDigitChars 10 (c :: digits) n) := by
        rw [ih (by omega) hall.2, Nat.ofDigitChars_cons]

/-- The digits of a number that is read from some digits are these, without
the zeros in front of them. -/
theorem toDigits_ofDigitChars (hne : digits ≠ []) (hall : digits.all Char.isDigit) :
    Nat.toDigits 10 (Nat.ofDigitChars 10 digits 0) = trimZeros digits := by
  fun_induction trimZeros digits with
  | case1 c digits ih =>
    rw [List.all_cons, Bool.and_eq_true] at hall
    -- a zero in front of another digit counts nothing and is dropped
    exact ih (List.cons_ne_nil _ _) hall.2
  | case2 digits hzeros =>
    rcases digits with - | ⟨c, digits⟩
    · exact absurd rfl hne
    · rw [List.all_cons, Bool.and_eq_true] at hall
      rw [Nat.ofDigitChars_cons, Nat.mul_zero, Nat.zero_add]
      by_cases hc : c = '0'
      · -- a zero that nothing follows
        subst hc
        rcases digits with - | ⟨d, digits⟩
        · rfl
        · exact absurd rfl (hzeros d digits)
      · -- a first digit that counts: from there on no digit is lost
        rw [← toDigits_append_digits (digit_pos hall.1 hc) hall.2, toDigits_of_isDigit hall.1,
          List.singleton_append]

theorem DigitsName.decimal_eq (h : DigitsName digits n) :
    decimal n = String.ofList (trimZeros digits) := by
  rw [← toDigits_ofDigitChars h.ne_nil h.all, h.ofDigitChars]
  rfl

end Text

/-! ### Tokens that are numerals -/

/-- What a token comes to when it is read as an integer. -/
inductive ReadsInteger (t : Token) : Except Diagnostic ParsedExpr → Prop
  | value (z : Int) (h : Text.NamesInteger t.text z) :
      ReadsInteger t (.ok (.integer (.ofToken t) z))
  | badNumber (h : ∀ z, ¬ Text.NamesInteger t.text z) :
      ReadsInteger t (.error ⟨.badNumber t.text, t.span.start⟩)

theorem readsInteger_of_some {t : Token} {z : Int} (h : Text.integer? t.text = some z) :
    ReadsInteger t (.ok (.integer (.ofToken t) z)) :=
  .value z (Text.integer?_eq_some_iff.mp h)

theorem readsInteger_of_none {t : Token} (h : Text.integer? t.text = none) :
    ReadsInteger t (.error ⟨.badNumber t.text, t.span.start⟩) :=
  .badNumber fun z hz => by
    rw [Text.integer?_eq_some_iff.mpr hz] at h
    cases h

/-- A token comes to one thing. -/
theorem ReadsInteger.unique {t : Token} {result result' : Except Diagnostic ParsedExpr}
    (h : ReadsInteger t result) (h' : ReadsInteger t result') : result = result' := by
  cases h with
  | value z h =>
    cases h' with
    | value z' h' =>
      have hz := (Text.integer?_eq_some_iff.mpr h).symm.trans (Text.integer?_eq_some_iff.mpr h')
      rw [Option.some.inj hz]
    -- one of the two says that the text names an integer, the other that it does not
    | badNumber h' => exact absurd h (h' z)
  | badNumber h =>
    cases h' with
    | value z h' => exact absurd h' (h z)
    | badNumber => rfl

theorem Reader.Action.run_integer (r : Reader) :
    ∃ result, ReadsInteger r.window.current result ∧ integer.run r = (result, r) := by
  rcases h : Text.integer? r.window.current.text with - | z
  · exact ⟨_, readsInteger_of_none h, by simp only [integer, Bind.bind, after, current, h]; rfl⟩
  · exact ⟨_, readsInteger_of_some h, by simp only [integer, Bind.bind, after, current, h]; rfl⟩

namespace Parser

variable {s : TokenStream}
variable {result : Except Diagnostic ParsedExpr}
variable {inner : Nested} {p : Precedence}

theorem run_integer (s : TokenStream) :
    ∃ result, ReadsInteger s.current result ∧ integer.run s = ⟨result, s, []⟩ := by
  rcases h : Text.integer? s.current.text with - | z
  · refine ⟨_, readsInteger_of_none h, ?_⟩
    simp only [integer, run_bind, run_current, after_ok, h, run_fail, List.nil_append]
  · refine ⟨_, readsInteger_of_some h, ?_⟩
    simp only [integer, run_bind, run_current, after_ok, h, run_pure, List.nil_append]

/-! ### Sources that are one numeral -/

/-- Nothing is linked to an expression at the end. -/
theorem run_links_of_eof (hpeek : s.peek.kind = .eof) (left : ParsedExpr) :
    (links inner p left).run s = ⟨.ok left, s, []⟩ := by
  have hends : ¬ decide (p < s.peek.kind.precedence) = true := by
    rw [hpeek, decide_eq_true_iff]
    exact Precedence.not_lt_lowest p
  rw [links, run_foldPeek, if_neg hends]

/-- A number at the end is an expression by itself. -/
theorem run_expression_of_number (hk : s.current.kind = .number) (hpeek : s.peek.kind = .eof)
    (h : ReadsInteger s.current result) :
    (expression inner p).run s = ⟨result, s, []⟩ := by
  obtain ⟨result', hread, hrun⟩ := run_integer s
  obtain rfl := hread.unique h
  have hlead : (lead inner).run s = ⟨result', s, []⟩ := by
    simp only [lead, run_bind, run_current, after_ok, hk, Kind.lead?, leading, hrun,
      List.nil_append]
  rw [expression, run_bind, hlead]
  -- only an integer goes on to the links, and nothing is linked at the end
  rcases result' with e | left
  · rfl
  · rw [after_ok, run_links_of_eof hpeek]
    rfl

/-- The statement that a number at the end is. -/
theorem run_statement_of_number (hk : s.current.kind = .number) (hpeek : s.peek.kind = .eof)
    (h : ReadsInteger s.current result) :
    (statement .outermost).run s =
      ⟨result.map fun e => some (.expression ⟨s.current, s.current.span.cover s.current.span⟩ e),
        s, [.statement s.current]⟩ := by
  have hrun : (Nested.outermost.expression .lowest).run s = ⟨result, s, []⟩ :=
    run_expression_of_number hk hpeek h
  have haccept : (accept .semicolon).run s = ⟨.ok (), s, []⟩ := by
    simp only [accept, run_bind, run_peek, after_ok, hpeek, reduceCtorEq, if_false, run_pure,
      List.nil_append]
  -- the failure of the expression is that of the statement
  rcases result with e | e
  · simp only [statement, expressionStatement, run_bind, run_current, run_announce, after_ok, hk,
      Kind.statementForm?, reduceCtorEq, if_false, hrun, after_error, List.append_nil,
      List.nil_append, Except.map]
  · simp only [statement, expressionStatement, run_bind, run_current, run_announce, after_ok, hk,
      Kind.statementForm?, reduceCtorEq, if_false, hrun, haccept, run_pure, List.append_nil,
      List.nil_append, Except.map]

end Parser

section Sources

variable {s : TokenStream} {t : Token} {e : ParsedExpr} {d : Diagnostic}

theorem kind_peek_of_pending_singleton (hs : s.pending = [t]) : s.peek.kind = .eof :=
  TokenStream.kind_current_eq_eof_iff.mpr (TokenStream.pending_advance_of_pending hs)

/-- A single number is a program, if it is an integer. -/
theorem parse_of_number (hs : s.pending = [t]) (hk : t.kind = .number)
    (h : ReadsInteger t (.ok e)) :
    parse s = ⟨⟨[.expression ⟨t, t.span.cover t.span⟩ e]⟩, []⟩ := by
  have hpeek := kind_peek_of_pending_singleton hs
  obtain rfl : s.current = t := TokenStream.current_of_pending hs
  have hends : ¬ Parser.endsSequence false s.current.kind := by rw [hk]; decide
  have hrun := Parser.run_statement_of_number hk hpeek h
  have hlater : Parser.runStatements .outermost false s.advance = ⟨[], s.advance, []⟩ :=
    Parser.runStatements_of_ends (congrArg (Parser.endsSequence false) hpeek)
  rw [parse, readProgram, Parser.runStatements_of_ok hends (congrArg Outcome.value hrun)]
  simp only [hrun, hlater]
  rfl

/-- A single number that is no integer is an error, and leaves nothing. -/
theorem parse_of_badNumber (hs : s.pending = [t]) (hk : t.kind = .number)
    (h : ReadsInteger t (.error d)) : parse s = ⟨⟨[]⟩, [d]⟩ := by
  have hpeek := kind_peek_of_pending_singleton hs
  obtain rfl : s.current = t := TokenStream.current_of_pending hs
  have hends : ¬ Parser.endsSequence false s.current.kind := by rw [hk]; decide
  have hrun := Parser.run_statement_of_number hk hpeek h
  -- what is skipped is the number itself
  have hskip : skipStatement false 0 s = ⟨false, s.advance, [s.sight]⟩ := by
    have hend : skipStatement false 0 s.advance = ⟨s.peek.kind = .closeCurly, s.advance, []⟩ :=
      skipStatement_of_stopsOn (congrArg (stopsOn false 0) hpeek)
    rw [skipStatement_of_goesOn (by rw [hk]; decide) (by rw [hk, hpeek]; decide), hk]
    simp only [bracesAfter, hend, hpeek, reduceCtorEq, decide_false]
  have hlater : Parser.runStatements .outermost false s.advance.advance =
      ⟨[], s.advance.advance, []⟩ := by
    have hpending : s.advance.advance.pending = [] := by
      rw [TokenStream.pending_advance, TokenStream.pending_advance_of_pending hs, List.tail_nil]
    exact Parser.runStatements_of_ends
      (congrArg (Parser.endsSequence false) (TokenStream.kind_current_eq_eof_iff.mpr hpending))
  rw [parse, readProgram, Parser.runStatements_of_error hends (congrArg Outcome.value hrun)
    (by rw [hrun, hskip])]
  simp only [hrun, hskip, hlater]
  rfl

/-- The one token of a source that is made of digits, however many there are. -/
theorem pending_ofSource_of_digits (file : String) {source : String} (hne : source ≠ "")
    (hall : source.toList.all Char.isDigit) :
    (TokenStream.ofSource file source).pending =
      [⟨.number, source, .ofBytes file 0 source.utf8ByteSize⟩] := by
  obtain ⟨x, xs, hsource⟩ := List.exists_cons_of_ne_nil (mt String.toList_eq_nil_iff.mp hne)
  rw [hsource, List.all_cons, Bool.and_eq_true] at hall
  have hrun : (xs ++ []).takeWhile Char.isDigit = xs := takeWhile_run hall.2 (by simp)
  rw [List.append_nil] at hrun
  have hfirst : Lexeme.first x xs = ⟨.digits, x :: xs⟩ := by
    rw [Lexeme.first_of_isDigit hall.1, hrun]
  have hsize : (Lexeme.first x xs).size = source.utf8ByteSize := by
    rw [hfirst, ← Text.byteCount_toList, hsource]
    rfl
  have htoken : Cursor.tokenOf ⟨file, 0, x :: xs⟩ .number (Lexeme.first x xs) =
      ⟨.number, source, .ofBytes file 0 source.utf8ByteSize⟩ := by
    rw [Cursor.tokenOf, hsize, hfirst, ← hsource, String.ofList_toList]
  -- the digits are the whole text, and behind them it ends
  have hwhole : x :: xs = (Lexeme.first x xs).text ++ [] := by rw [hfirst, List.append_nil]
  have hstream := (Cursor.stream_of_token file (Nat.zero_le maxOffset)
    (congrArg Lexeme.tokenKind? hfirst)).1
  rw [Cursor.past_first file 0 hwhole, (Cursor.stream_of_ended file (.inl rfl)).1,
    htoken] at hstream
  rw [TokenStream.ofSource, Cursor.ofSource, hsource, hstream]

variable {source : String} {n : Nat}

theorem parseSource_of_digits_lt (file : String) (hname : Text.DigitsName source.toList n)
    (hlt : n < 0x8000000000000000) :
    ∃ o o', parseSource file source = ⟨⟨[.expression o (.integer o' n)]⟩, []⟩ := by
  have hne : source ≠ "" := mt String.toList_eq_nil_iff.mpr hname.ne_nil
  have hread := ReadsInteger.value (t := ⟨.number, source, .ofBytes file 0 source.utf8ByteSize⟩) n
    ((Text.namesInteger_of_digits hname).mpr ⟨rfl, hlt⟩)
  exact ⟨_, _, parse_of_number (pending_ofSource_of_digits file hne hname.all) rfl hread⟩

theorem parseSource_of_le_digits (file : String) (hname : Text.DigitsName source.toList n)
    (hle : 0x8000000000000000 ≤ n) :
    parseSource file source = ⟨⟨[]⟩, [⟨.badNumber source, ⟨0, file⟩⟩]⟩ := by
  have hne : source ≠ "" := mt String.toList_eq_nil_iff.mpr hname.ne_nil
  have hread := ReadsInteger.badNumber
    (t := ⟨.number, source, .ofBytes file 0 source.utf8ByteSize⟩) fun z hz =>
      Nat.not_lt.mpr hle ((Text.namesInteger_of_digits hname).mp hz).2
  exact parse_of_badNumber (pending_ofSource_of_digits file hne hname.all) rfl hread

end Sources

/-- **Integers are exact, up to the limits of 64 bits.**  A token is read as an
integer exactly if its text is a numeral and what it names lies within the limits;
that is the integer then, and otherwise the text is reported where the token
begins.  A source that is made of digits, however many there are, is accepted
exactly if the number they name is below `2 ^ 63`, and is written without zeros
in front then. -/
theorem Reader.integers_exact :
    (∀ (r r' : Reader) (result : Except Diagnostic ParsedExpr),
      Action.integer.run r = (result, r') ↔ r' = r ∧ ReadsInteger r.window.current result) ∧
    ∀ file source : String, source ≠ "" → (∀ c ∈ source.toList, c.isDigit) →
      ∃ n, (∀ m, Text.DigitsName source.toList m ↔ m = n) ∧
        ((parseSource file source).errors = [] ↔ n < 0x8000000000000000) ∧
        (n < 0x8000000000000000 →
          (parseSource file source).program.render =
            String.ofList (Text.trimZeros source.toList) ++ ";") ∧
        (0x8000000000000000 ≤ n →
          parseSource file source = ⟨⟨[]⟩, [⟨.badNumber source, ⟨0, file⟩⟩]⟩) := by
  constructor
  · -- one token: the reader finds what the token comes to, and that is one thing
    intro r r' result
    obtain ⟨found, hread, hrun⟩ := Action.run_integer r
    rw [hrun, Prod.mk.injEq]
    constructor
    · rintro ⟨rfl, rfl⟩
      exact ⟨rfl, hread⟩
    · rintro ⟨rfl, h⟩
      exact ⟨hread.unique h, rfl⟩
  · -- a source of digits is one number token, and names one number
    intro file source hne hdigits
    have hname := Text.digitsName_ofDigitChars (mt String.toList_eq_nil_iff.mp hne)
      (List.all_eq_true.mpr hdigits)
    refine ⟨_, fun m => ⟨fun h => h.ofDigitChars.symm, fun h => h ▸ hname⟩, ?_, fun hlt => ?_,
      parseSource_of_le_digits file hname⟩
    · -- accepted exactly below the limit, since a number beyond it is reported
      constructor
      · intro h
        rcases Nat.lt_or_ge (Nat.ofDigitChars 10 source.toList 0) 0x8000000000000000 with hlt | hle
        · exact hlt
        · rw [parseSource_of_le_digits file hname hle] at h
          cases h
      · intro hlt
        obtain ⟨o, o', hparse⟩ := parseSource_of_digits_lt file hname hlt
        rw [hparse]
    · -- the rendering is the decimal form, which has no zeros in front
      obtain ⟨o, o', hparse⟩ := parseSource_of_digits_lt file hname hlt
      rw [hparse, ← hname.decimal_eq]
      rfl

/-- The limits, with signs and with zeros in front. -/
theorem Reader.integers_exact_example :
    let token (text : String) : Token := ⟨.number, text, .ofBytes "script" 3 text.utf8ByteSize⟩
    let reader (text : String) := ofSource (.buffer (.ofTokens "script" [token text]))
    let least := "-09223372036854775808"
    let beyond := "+9223372036854775808"
    Action.integer.run (reader least) =
        (.ok (.integer (.ofToken (token least)) (-0x8000000000000000)), reader least) ∧
      Action.integer.run (reader beyond) =
        (.error ⟨.badNumber beyond, ⟨3, "script"⟩⟩, reader beyond) ∧
      (parseSource "shell" "009223372036854775807").program.render = "9223372036854775807;" ∧
      (parseSource "shell" "009223372036854775808").errors ≠ [] := by
  intro token reader least beyond
  obtain ⟨htokens, hsources⟩ := integers_exact
  have hleast : Text.integer? least = some (-0x8000000000000000) := by decide +kernel
  have hbeyond : Text.integer? beyond = none := by decide +kernel
  refine ⟨(htokens _ _ _).mpr ⟨rfl, readsInteger_of_some hleast⟩,
    (htokens _ _ _).mpr ⟨rfl, readsInteger_of_none hbeyond⟩, ?_, ?_⟩
  · obtain ⟨n, hn, -, hrender, -⟩ := hsources "shell" "009223372036854775807" (by decide)
      (List.all_eq_true.mp (by decide +kernel))
    have hvalue := (hn _).mp (Text.digitsName_ofDigitChars (by decide) (by decide +kernel))
    rw [hrender (by rw [← hvalue]; decide +kernel)]
    decide +kernel
  · obtain ⟨n, hn, haccepted, -⟩ := hsources "shell" "009223372036854775808" (by decide)
      (List.all_eq_true.mp (by decide +kernel))
    have hvalue := (hn _).mp (Text.digitsName_ofDigitChars (by decide) (by decide +kernel))
    exact mt haccepted.mp (by rw [← hvalue]; decide +kernel)

end LetFn
