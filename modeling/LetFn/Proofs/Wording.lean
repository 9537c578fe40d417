/-
LetFn/Proofs/Wording.lean

What a source says, word by word.  A word is a token as it counts: brackets,
semicolons and the end of the source are no words, because they only group
and separate, and a numeral counts by its value.

The words of a tree are those of its canonical text, and also those of every
text that the tree is read from.  So a source that is read without errors and
its canonical text have the same words: none is lost, added, doubled or moved.

The argument is a recursion on the derivation in the grammar, where the words
of a sequence of tokens are put together like the tokens themselves
(`words_expr` and its companions).  It is used twice, for the source and for
the canonical text; both trees are the same but for their annotations, of
which the words are independent (`Program.words_bare`).

Main statement: `words_tokenize_render`.
-/
import LetFn.Proofs.RoundTrip

namespace LetFn

variable {α β : Type}
variable {t : Token}
variable {ts us : List Token}

/-! ### Words of tokens -/

/-- A token as it counts. -/
inductive Word where
  /-- A token of some kind, with its text. -/
  | text (kind : Kind) (text : String)
  /-- A numeral, with its value. -/
  | numeral (value : Nat)
  deriving DecidableEq, Repr

/-- The kinds of tokens that are no words. -/
def Kind.isSilent (k : Kind) : Bool :=
  [openParen, closeParen, semicolon, eof].contains k

/-- The word that a token is, if it is one. -/
def Token.word? (t : Token) : Option Word :=
  if t.kind.isSilent then none
  else if t.kind = .number then some (.numeral (Nat.ofDigitChars 10 t.text.toList 0))
  else some (.text t.kind t.text)

/-- The words among some tokens. -/
def words (tokens : List Token) : List Word := tokens.filterMap Token.word?

@[simp] theorem words_nil : words [] = [] := rfl

@[simp] theorem words_append : words (ts ++ us) = words ts ++ words us := List.filterMap_append

theorem words_cons_silent (h : t.kind.isSilent) : words (t :: ts) = words ts :=
  List.filterMap_cons_none (by simp [Token.word?, h])

theorem words_cons_text {k : Kind} (h : t.kind = k) (hs : k.isSilent = false) (hn : k ≠ .number) :
    words (t :: ts) = .text k t.text :: words ts :=
  List.filterMap_cons_some (by simp [Token.word?, h, hs, hn])

theorem words_cons_numeral (h : t.kind = .number) :
    words (t :: ts) = .numeral (Nat.ofDigitChars 10 t.text.toList 0) :: words ts :=
  List.filterMap_cons_some (by simp [Token.word?, h, Kind.isSilent])

/-- The end of a stream is no word. -/
theorem words_toList (s : TokenStream) : words s.toList = words s.pending := by
  rw [TokenStream.toList, words_append, words_cons_silent (by rw [s.kind_last]; rfl), words_nil,
    List.append_nil]

/-! ### Words of trees -/

/-- The kind with the given spelling. -/
def Kind.ofSpelling? (spelling : String) : Option Kind :=
  Kind.all.find? fun k => k.spelling? == some spelling

theorem Kind.ofSpelling?_of_spelling? {k : Kind} {s : String} (h : k.spelling? = some s) :
    Kind.ofSpelling? s = some k := by
  rcases hl : Kind.ofSpelling? s with - | l
  · -- the search goes through all kinds, so it does not fail
    have hk := List.find?_eq_none.mp hl k k.mem_all
    simp [h] at hk
  · -- and no two kinds are spelled alike
    have hs : l.spelling? = some s := by simpa using List.find?_some hl
    rw [Kind.spelling?_inj hs h]

namespace Word

/-- The word that is spelled like this, whatever its kind. -/
def spelled (spelling : String) : Word :=
  .text ((Kind.ofSpelling? spelling).getD .illegal) spelling

/-- A name as a word. -/
def ofName (name : Name α) : Word := .text .identifier name.text

/-- The words of some items, with a comma between two of them. -/
def listed (items : List (List Word)) : List Word := [spelled ","].intercalate items

theorem listed_concat {items : List (List Word)} (item : List Word) (h : items ≠ []) :
    listed (items ++ [item]) = listed items ++ spelled "," :: item := by
  induction items with
  | nil => exact absurd rfl h
  | cons first items ih =>
    rcases items with - | ⟨second, items⟩
    · -- one item, and then the new one
      simp [listed]
    · -- at least two items: the comma behind the first one is there already
      have hcons (later : List (List Word)) :
          listed (first :: second :: later) =
            first ++ [spelled ","] ++ listed (second :: later) :=
        List.intercalate_cons_cons
      rw [hcons, List.append_assoc _ _ (_ :: item), ← ih (List.cons_ne_nil _ _)]
      exact hcons (items ++ [item])

end Word

mutual

/-- The words of an expression. -/
def Expr.words : Expr α → List Word
  | .identifier name => [.ofName name]
  | .integer _ value => [.numeral value.toNat]
  | .boolean _ value => [.spelled (if value then "true" else "false")]
  | .unary _ operator operand => .spelled operator :: operand.words
  | .binary _ left operator right => left.words ++ .spelled operator :: right.words
  | .conditional _ condition consequence alternative =>
    .spelled "if" :: (condition.words ++ (consequence.words ++ Block.wordsElse alternative))
  | .function _ parameters body =>
    .spelled "fn" :: (Word.listed (parameters.map fun name => [.ofName name]) ++ body.words)
  | .call _ callee arguments => callee.words ++ Word.listed (Expr.wordsEach arguments)

/-- The words of each of some expressions. -/
def Expr.wordsEach : List (Expr α) → List (List Word)
  | [] => []
  | e :: later => e.words :: Expr.wordsEach later

/-- The words of a block. -/
def Block.words : Block α → List Word
  | ⟨_, body⟩ => .spelled "\x7b" :: (Stmt.wordsEach body ++ [.spelled "\x7d"])

/-- The words of the second branch of a conditional, if there is one. -/
def Block.wordsElse : Option (Block α) → List Word
  | none => []
  | some body => .spelled "else" :: body.words

/-- The words of a statement. -/
def Stmt.words : Stmt α → List Word
  | .binding _ name value => .spelled "let" :: .ofName name :: .spelled "=" :: value.words
  | .returning _ value => .spelled "return" :: value.words
  | .expression _ value => value.words
  | .block body => body.words

/-- The words of some statements. -/
def Stmt.wordsEach : List (Stmt α) → List Word
  | [] => []
  | s :: later => s.words ++ Stmt.wordsEach later

end

/-- The words of a program. -/
def Program.words (p : Program α) : List Word := Stmt.wordsEach p.statements

/-! ### What annotations do not matter for -/

mutual

theorem Expr.words_map (f : α → β) : ∀ e : Expr α, (e.map f).words = e.words
  | .identifier _ | .integer .. | .boolean .. => rfl
  | .unary _ _ r => by rw [Expr.map, Expr.words, Expr.words_map f r, Expr.words]
  | .binary _ l _ r => by
    rw [Expr.map, Expr.words, Expr.words_map f l, Expr.words_map f r, Expr.words]
  | .conditional _ c b e => by
    rw [Expr.map, Expr.words, Expr.words_map f c, Block.words_map f b, Block.wordsElse_map f e,
      Expr.words]
  | .function _ xs b => by
    -- a name is a word, whatever it is annotated with
    have hnames : (xs.map (Name.map f)).map (fun name => [Word.ofName name]) =
        xs.map fun name => [Word.ofName name] := by
      rw [List.map_map]
      rfl
    rw [Expr.map, Expr.words, hnames, Block.words_map f b, Expr.words]
  | .call _ g es => by
    rw [Expr.map, Expr.words, Expr.words_map f g, Expr.wordsEach_mapEach f es, Expr.words]

theorem Expr.wordsEach_mapEach (f : α → β) :
    ∀ es : List (Expr α), Expr.wordsEach (Expr.mapEach f es) = Expr.wordsEach es
  | [] => rfl
  | e :: es => by
    rw [Expr.mapEach, Expr.wordsEach, Expr.words_map f e, Expr.wordsEach_mapEach f es,
      Expr.wordsEach]

theorem Block.words_map (f : α → β) : ∀ b : Block α, (b.map f).words = b.words
  | ⟨_, ss⟩ => by rw [Block.map, Block.words, Stmt.wordsEach_mapEach f ss, Block.words]

theorem Block.wordsElse_map (f : α → β) :
    ∀ b : Option (Block α), Block.wordsElse (Block.mapOption f b) = Block.wordsElse b
  | none => rfl
  | some b => by rw [Block.mapOption, Block.wordsElse, Block.words_map f b, Block.wordsElse]

theorem Stmt.words_map (f : α → β) : ∀ s : Stmt α, (s.map f).words = s.words
  | .binding _ name e => by rw [Stmt.map, Stmt.words, Expr.words_map f e, Stmt.words]; rfl
  | .returning _ e => by rw [Stmt.map, Stmt.words, Expr.words_map f e, Stmt.words]
  | .expression _ e => by rw [Stmt.map, Stmt.words, Expr.words_map f e, Stmt.words]
  | .block b => by rw [Stmt.map, Stmt.words, Block.words_map f b, Stmt.words]

theorem Stmt.wordsEach_mapEach (f : α → β) :
    ∀ ss : List (Stmt α), Stmt.wordsEach (Stmt.mapEach f ss) = Stmt.wordsEach ss
  | [] => rfl
  | s :: ss => by
    rw [Stmt.mapEach, Stmt.wordsEach, Stmt.words_map f s, Stmt.wordsEach_mapEach f ss,
      Stmt.wordsEach]

end

/-- The words of a program say nothing about where it comes from. -/
theorem Program.words_bare (p : Program α) : p.bare.words = p.words := by
  rw [Program.bare, Program.map, Program.words, ← Stmt.mapEach_eq_map, Stmt.wordsEach_mapEach,
    Program.words]

theorem Expr.wordsEach_eq_map (es : List (Expr α)) : Expr.wordsEach es = es.map Expr.words := by
  induction es with
  | nil => rfl
  | cons e es ih => rw [Expr.wordsEach, ih, List.map_cons]

theorem Stmt.wordsEach_append (ss ss' : List (Stmt α)) :
    Stmt.wordsEach (ss ++ ss') = Stmt.wordsEach ss ++ Stmt.wordsEach ss' := by
  induction ss with
  | nil => rfl
  | cons s ss ih => rw [List.cons_append, Stmt.wordsEach, ih, Stmt.wordsEach, List.append_assoc]

/-! ### Words of the grammar -/

namespace Grammar

/-- A token that is spelled as its kind says. -/
theorem words_cons_spelled {k : Kind} {s : String} (ht : t.Spelled) (hk : t.kind = k)
    (hs : k.spelling? = some s) (hsilent : k.isSilent = false) :
    words (t :: ts) = .spelled s :: words ts := by
  -- a number has no fixed spelling
  have hn : k ≠ .number := by
    rintro rfl
    cases hs
  rw [words_cons_text hk hsilent hn, ht.spelling s (hk ▸ hs), Word.spelled,
    Kind.ofSpelling?_of_spelling? hs]
  rfl

/-- An operator of a kind that has one spelling. -/
theorem words_cons_operator {k : Kind} (ht : t.Spelled) (hk : t.kind = k)
    (hs : k.spelling?.isSome) (hsilent : k.isSilent = false) :
    words (t :: ts) = .spelled t.text :: words ts := by
  obtain ⟨s, hs⟩ := Option.isSome_iff_exists.mp hs
  rw [words_cons_spelled ht hk hs hsilent, ht.spelling s (hk ▸ hs)]

theorem words_cons_unary (ht : t.Spelled) (hk : t.kind ∈ unaryOperators) :
    words (t :: ts) = .spelled t.text :: words ts := by
  have key : ∀ k ∈ unaryOperators, k.spelling?.isSome ∧ k.isSilent = false := by decide
  exact words_cons_operator ht rfl (key _ hk).1 (key _ hk).2

theorem words_cons_binary {stratum : Stratum} (ht : t.Spelled) (hk : t.kind ∈ stratum.operators) :
    words (t :: ts) = .spelled t.text :: words ts := by
  have key : ∀ k ∈ stratum.operators, k.spelling?.isSome ∧ k.isSilent = false := by
    cases stratum <;> decide
  exact words_cons_operator ht rfl (key _ hk).1 (key _ hk).2

theorem words_cons_name (hk : t.kind = .identifier) :
    words (t :: ts) = .ofName (⟨Origin.ofToken t, t.text⟩ : Name Origin) :: words ts :=
  words_cons_text hk rfl (by decide)

theorem words_cons_integer {value : Int} (ht : t.Spelled) (hk : t.kind = .number)
    (h : Text.integer? t.text = some value) :
    words (t :: ts) = .numeral value.toNat :: words ts := by
  rw [words_cons_numeral hk, Text.eq_of_integer?_of_digits (ht.digits hk) h, Int.toNat_natCast]

/-- Brackets around tokens are no words. -/
theorem words_bracketed {opening closing : Token} (ho : opening.kind = .openParen)
    (hc : closing.kind = .closeParen) :
    words (opening :: (ts ++ closing :: us)) = words ts ++ words us := by
  rw [words_cons_silent (by rw [ho]; rfl), words_append, words_cons_silent (by rw [hc]; rfl)]

theorem words_end {next : Kind} (h : IsEnd next ts) : words ts = [] := by
  cases h with
  | semicolon hk => exact words_cons_silent (by rw [hk]; rfl)
  | none => rfl

theorem IsItems.ne_nil {item : List Token → β → Prop} {as : List β} (h : IsItems item ts as) :
    as ≠ [] := by
  cases h with
  | one _ => exact List.cons_ne_nil _ _
  | more _ _ _ => exact List.append_ne_nil_of_right_ne_nil _ (List.cons_ne_nil _ _)

theorem words_items {xs : List (Name Origin)} (h : IsItems IsParameter ts xs)
    (ht : ∀ t ∈ ts, t.Spelled) :
    words ts = Word.listed (xs.map fun name => [Word.ofName name]) := by
  induction h with
  | one h =>
    obtain @⟨t, hk⟩ := h
    rw [words_cons_name hk]
    rfl
  | more hs hcomma h ih =>
    obtain @⟨t, hk⟩ := h
    simp only [List.forall_mem_append, List.forall_mem_cons] at ht
    -- a comma between the items stays as a word
    rw [words_append, ih ht.1, words_cons_spelled ht.2.1 hcomma rfl rfl, words_cons_name hk,
      List.map_append]
    exact (Word.listed_concat _ (by simpa using hs.ne_nil)).symm

theorem words_parameters {xs : List (Name Origin)} (h : IsList IsParameter ts xs)
    (ht : ∀ t ∈ ts, t.Spelled) :
    words ts = Word.listed (xs.map fun name => [Word.ofName name]) := by
  cases h with
  | none => rfl
  | items h => exact words_items h ht

mutual

theorem words_expr {stratum : Stratum} {ts : List Token} {e : ParsedExpr} {n : Nat}
    (h : IsExpr false stratum ts e n) (ht : ∀ t ∈ ts, t.Spelled) : words ts = e.words := by
  match h with
  -- on the grammar; each constructor puts the words of its parts in the order of the tree
  | .tighter h => exact words_expr h ht
  | .binary hl hop hr =>
    simp only [List.forall_mem_append, List.forall_mem_cons] at ht
    obtain ⟨hleft, hoperator, hright⟩ := ht
    rw [words_append, words_cons_binary hoperator hop, words_expr hl hleft, words_expr hr hright,
      Expr.words]
  | .unary hop he =>
    rw [List.forall_mem_cons] at ht
    rw [words_cons_unary ht.1 hop, words_expr he ht.2, Expr.words]
  -- the brackets of a call are no words, its arguments are
  | .call hf ho hes hc =>
    simp only [List.forall_mem_append, List.forall_mem_cons] at ht
    obtain ⟨hcallee, -, hargs, -⟩ := ht
    rw [words_append, words_bracketed ho hc, words_expr hf hcallee, words_arguments hes hargs,
      words_nil, List.append_nil, Expr.words]
  -- leaves are one word each
  | .identifier hk => exact words_cons_name hk
  | .integer hk hvalue => exact words_cons_integer (ht _ List.mem_cons_self) hk hvalue
  | .true hk => exact words_cons_spelled (ht _ List.mem_cons_self) hk rfl rfl
  | .false hk => exact words_cons_spelled (ht _ List.mem_cons_self) hk rfl rfl
  -- brackets may come and go
  | .group ho he hc =>
    simp only [List.forall_mem_append, List.forall_mem_cons] at ht
    rw [words_bracketed ho hc, words_expr he ht.2.1, words_nil, List.append_nil]
  | .conditional hk ho hc hclose hb hf hts =>
    subst hts
    simp only [List.forall_mem_append, List.forall_mem_cons] at ht
    obtain ⟨hkeyword, -, hcondition, -, hconsequence, helse⟩ := ht
    rw [words_cons_spelled hkeyword hk rfl rfl, words_bracketed ho hclose, words_append,
      words_expr hc hcondition, words_block hb hconsequence, words_alternative hf helse, Expr.words]
  | .function hk ho hxs hclose hb hts =>
    subst hts
    simp only [List.forall_mem_append, List.forall_mem_cons] at ht
    obtain ⟨hkeyword, -, hnames, -, hbody⟩ := ht
    rw [words_cons_spelled hkeyword hk rfl rfl, words_bracketed ho hclose,
      words_parameters hxs hnames, words_block hb hbody, Expr.words]

theorem words_arguments {ts : List Token} {es : List ParsedExpr} {n : Nat}
    (h : IsArguments false ts es n) (ht : ∀ t ∈ ts, t.Spelled) :
    words ts = Word.listed (Expr.wordsEach es) := by
  match h with
  | .none => rfl
  | .one he =>
    rw [words_expr he ht]
    simp [Word.listed, Expr.wordsEach]
  | .more hes hne hcomma he =>
    simp only [List.forall_mem_append, List.forall_mem_cons] at ht
    rw [words_append, words_arguments hes ht.1, words_cons_spelled ht.2.1 hcomma rfl rfl,
      words_expr he ht.2.2]
    rw [Expr.wordsEach_eq_map, Expr.wordsEach_eq_map, List.map_append]
    exact (Word.listed_concat _ (by simpa using hne)).symm

theorem words_alternative {ts : List Token} {f : Option ParsedBlock} {n : Nat}
    (h : IsAlternative false ts f n) (ht : ∀ t ∈ ts, t.Spelled) :
    words ts = Block.wordsElse f := by
  match h with
  | .none => rfl
  | .some hk hb =>
    rw [List.forall_mem_cons] at ht
    rw [words_cons_spelled ht.1 hk rfl rfl, words_block hb ht.2, Block.wordsElse]

theorem words_block {ts : List Token} {b : ParsedBlock} {n : Nat} (h : IsBlock false ts b n)
    (ht : ∀ t ∈ ts, t.Spelled) : words ts = b.words := by
  match h with
  | .braces ho hs hc =>
    simp only [List.forall_mem_append, List.forall_mem_cons] at ht
    obtain ⟨hopening, hbody, hclosing, -⟩ := ht
    rw [words_cons_spelled hopening ho rfl rfl, words_append, words_stmts hs hbody,
      words_cons_spelled hclosing hc rfl rfl, Block.words]
    rfl

theorem words_stmt {next : Kind} {ts : List Token} {found : Option ParsedStmt} {n : Nat}
    (h : IsStmt false next ts found n) (ht : ∀ t ∈ ts, t.Spelled) :
    words ts = Stmt.wordsEach found.toList := by
  -- a statement alone, as a sequence of one
  have one (s : ParsedStmt) : Stmt.wordsEach (some s).toList = s.words := List.append_nil _
  match h with
  -- so may semicolons
  | .empty hk => exact words_cons_silent (by rw [hk]; rfl)
  | .block hb => rw [words_block hb ht, one, Stmt.words]
  | .binding hk hname hassign he hend hts =>
    subst hts
    simp only [List.forall_mem_append, List.forall_mem_cons] at ht
    obtain ⟨hkeyword, -, hassignment, hvalue, -⟩ := ht
    rw [words_cons_spelled hkeyword hk rfl rfl, words_cons_name hname,
      words_cons_spelled hassignment hassign rfl rfl, words_append, words_expr he hvalue,
      words_end hend, List.append_nil, one, Stmt.words]
  | .returning hk he hend hts =>
    subst hts
    simp only [List.forall_mem_append, List.forall_mem_cons] at ht
    obtain ⟨hkeyword, hvalue, -⟩ := ht
    rw [words_cons_spelled hkeyword hk rfl rfl, words_append, words_expr he hvalue,
      words_end hend, List.append_nil, one, Stmt.words]
  | .expression he hend hts _ =>
    subst hts
    rw [List.forall_mem_append] at ht
    rw [words_append, words_expr he ht.1, words_end hend, List.append_nil, one, Stmt.words]

theorem words_stmts {next : Kind} {ts : List Token} {ss : List ParsedStmt} {n : Nat}
    (h : IsStmts false next ts ss n) (ht : ∀ t ∈ ts, t.Spelled) :
    words ts = Stmt.wordsEach ss := by
  match h with
  | .nil => rfl
  | .cons h hs =>
    rw [List.forall_mem_append] at ht
    rw [words_append, words_stmt h ht.1, words_stmts hs ht.2, Stmt.wordsEach_append]
  -- nothing is skipped in the grammar proper
  | .skip hlax _ => cases hlax

end

/-- The tokens of a source that are a program have the words of the program. -/
theorem words_tokenize {file source : String} {p : ParsedProgram} {n : Nat}
    (h : IsProgram false (TokenStream.ofSource file source).pending p n) :
    words (tokenize file source) = p.words := by
  rw [tokenize, words_toList]
  exact words_stmts h (spelled_ofSource file source)

/-- The canonical text of a well-formed program has the words of the program. -/
theorem words_tokenize_of_wellFormed {p : Program α} (hp : p.wellFormed) (file : String)
    (hsize : p.render.utf8ByteSize < UInt32.size) : words (tokenize file p.render) = p.words := by
  obtain ⟨p', n, hp', -, hbare⟩ := exists_isProgram_render hp file (Nat.le_of_lt_succ hsize)
  rw [words_tokenize hp', ← p'.words_bare, hbare, p.words_bare]

end Grammar

/-! ### What is read without errors -/

/-- **No token is lost, added, doubled or moved**: a source that is read
without errors and the canonical text of what is read have the same words. -/
theorem words_tokenize_render (file source : String)
    (herrors : (parseSource file source).errors = [])
    (hsize : (parseSource file source).program.render.utf8ByteSize < UInt32.size) :
    words (tokenize file (parseSource file source).program.render) =
      words (tokenize file source) := by
  obtain ⟨n, -, hread⟩ := Grammar.isProgram_parse false (.ofSource file source) fun _ => herrors
  rw [Grammar.words_tokenize hread]
  exact Grammar.words_tokenize_of_wellFormed (Grammar.wellFormed_parseSource file source) file hsize

/-- Brackets, semicolons and zeros change places, and the words stay. -/
theorem words_tokenize_render_example :
    let source := "let f = fn(a, b) { if (a < 007) { a } else { return -b + 1 * 2 } }; f((0), g())"
    let p := (parseSource "shell" source).program
    (parseSource "shell" source).errors = [] ∧ p.render ≠ source ∧
      p.render =
        "let f = fn(a, b) { if ((a < 7)) { a; } else { return ((-b) + (1 * 2)); }; }; f(0, g());" ∧
      ((words (tokenize "shell" source)).drop 9).take 3 =
        [.text .identifier "a", .text .less "<", .numeral 7] ∧
      words (tokenize "shell" p.render) = words (tokenize "shell" source) := by
  intro source p
  have herrors : (parseSource "shell" source).errors = [] := by decide +kernel
  exact ⟨herrors, by decide +kernel, by decide +kernel, by decide +kernel,
    words_tokenize_render "shell" source herrors (by decide +kernel)⟩

end LetFn
