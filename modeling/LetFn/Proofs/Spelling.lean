/-
LetFn/Proofs/Spelling.lean

The canonical text of a tree is scanned into tokens that the grammar takes
for that tree.
-/
import LetFn.Proofs.Canonical
import LetFn.Proofs.Grammar
import LetFn.Proofs.Scanning

namespace LetFn

namespace Grammar

variable {α : Type}
variable {rest : List Char}
variable {ts us : List Token}

/-! ### Tokens that spell a tree -/

/-- The tokens are an expression that is `e` but for its annotations. -/
def SpellsExpr (e : Expr α) (ts : List Token) : Prop :=
  ∃ e' n, IsExpr false .call ts e' n ∧ n = e.levels ∧ e'.bare = e.bare

/-- The tokens are a block that is `b` but for its annotations. -/
def SpellsBlock (b : Block α) (ts : List Token) : Prop :=
  ∃ b' n, IsBlock false ts b' n ∧ n = b.levels ∧ b'.bare = b.bare

/-- The tokens are a statement that is `s` but for its annotations, whatever
comes behind it. -/
def SpellsStmt (s : Stmt α) (ts : List Token) : Prop :=
  ∃ s' n, (∀ next, IsStmt false next ts (some s') n) ∧ n = s.levels ∧ s'.bare = s.bare

/-! ### Single words and numerals -/

/-- No word goes on into the text. -/
def Parted (rest : List Char) : Prop := ∀ c ∈ rest.head?, ¬ isWordPart c

theorem parted_cons {c : Char} (h : isWordPart c = false) : Parted (c :: rest) := by
  intro d hd
  obtain rfl : c = d := by simpa using hd
  rw [h]
  exact Bool.false_ne_true

/-- The text of the expression is scanned into tokens that spell it, where no
word goes on behind it; and it does not make another mark of a `!` before it. -/
structure ScansExpr (e : Expr α) : Prop where
  first : ∃ c cs, e.render.toList = c :: cs ∧ c ≠ '='
  scans : ∀ rest, Parted rest → Scans e.render.toList rest (SpellsExpr e)

theorem scans_name {text : String} (h : isName text) (hrest : Parted rest) :
    Scans text.toList rest (IsToken .identifier text.toList) := by
  obtain ⟨c, word, hword, hc, hall, hnone⟩ := isName_iff.mp h
  have key := scans_word hc hall hrest
  rw [← hword, String.ofList_toList, hnone] at key
  exact key

theorem scans_keyword {k : Kind} {c : Char} {word : List Char}
    (hk : Kind.keyword? (String.ofList (c :: word)) = some k) (hc : isWordStart c)
    (hword : word.all isWordPart) (hrest : Parted rest) :
    Scans (c :: word) rest (IsToken k (c :: word)) := by
  have key := scans_word hc hword hrest
  rw [hk] at key
  exact key

theorem ScansExpr.identifier {name : Name α} (h : isName name.text) :
    ScansExpr (.identifier name) := by
  constructor
  · -- a name begins like a word
    obtain ⟨c, word, hword, hc, -⟩ := isName_iff.mp h
    refine ⟨c, word, hword, ?_⟩
    rintro rfl
    cases hc
  · intro rest hrest
    apply (scans_name h hrest).imp
    rintro _ ⟨t, rfl, hk, htext⟩
    refine ⟨_, 1, .of_primary (.identifier hk), rfl, ?_⟩
    rw [String.ofList_toList] at htext
    rw [htext]
    rfl

theorem ScansExpr.integer {o : α} {value : Int} (hmin : 0 ≤ value)
    (hmax : value ≤ Text.maxInteger) :
    ScansExpr (.integer o value) := by
  -- the decimal form is read back, and it is made of digits
  have hread := Text.integer?_decimal (Int.le_trans (by decide) hmin) hmax
  obtain ⟨n, rfl⟩ := Int.eq_ofNat_of_zero_le hmin
  obtain ⟨c, cs, hcs⟩ := List.exists_cons_of_ne_nil (Nat.toDigits_ne_nil (n := n) (b := 10))
  have hall : ∀ d ∈ c :: cs, d.isDigit := fun d hd =>
    Nat.isDigit_of_mem_toDigits (by decide) (by decide) (hcs ▸ hd)
  have htext : (Expr.integer o (n : Int)).render.toList = c :: cs := by
    rw [← hcs]
    exact String.toList_ofList
  constructor
  · refine ⟨c, cs, htext, ?_⟩
    rintro rfl
    cases hall '=' List.mem_cons_self
  · intro rest hrest
    have hdigits : Scans (c :: cs) rest (IsToken .number (c :: cs)) := by
      refine scans_digits (hall c List.mem_cons_self) ?_ fun d hd hdigit => ?_
      · exact List.all_eq_true.mpr fun d hd => hall d (List.mem_cons_of_mem c hd)
      · exact hrest d hd (by simp [isWordPart, Char.isAlphanum, hdigit])
    rw [htext]
    apply hdigits.imp
    rintro _ ⟨t, rfl, hk, htext'⟩
    rw [← htext, String.ofList_toList] at htext'
    exact ⟨_, 1, .of_primary (.integer hk (htext' ▸ hread)), rfl, rfl⟩

theorem ScansExpr.boolean {o : α} {value : Bool} : ScansExpr (.boolean o value) := by
  cases value with
  | true =>
    have htext : (Expr.boolean o true).render.toList = "true".toList := rfl
    refine ⟨⟨'t', ['r', 'u', 'e'], htext, by decide⟩, fun rest hrest => ?_⟩
    have hword : Scans "true".toList rest _ := scans_keyword (k := .kwTrue) rfl rfl rfl hrest
    apply hword.imp
    rintro _ ⟨t, rfl, hk, -⟩
    exact ⟨_, 1, .of_primary (.true hk), rfl, rfl⟩
  | false =>
    have htext : (Expr.boolean o false).render.toList = "false".toList := rfl
    refine ⟨⟨'f', ['a', 'l', 's', 'e'], htext, by decide⟩, fun rest hrest => ?_⟩
    have hword : Scans "false".toList rest _ := scans_keyword (k := .kwFalse) rfl rfl rfl hrest
    apply hword.imp
    rintro _ ⟨t, rfl, hk, -⟩
    exact ⟨_, 1, .of_primary (.false hk), rfl, rfl⟩

/-! ### Operations -/

theorem scans_unaryOperator {operator : String} {ds : List Char}
    (hop : unarySpellings.contains operator) (hfirst : ∀ c ∈ (ds ++ rest).head?, c ≠ '=') :
    ∃ k ∈ unaryOperators, Scans operator.toList (ds ++ rest) (IsToken k operator.toList) := by
  have hcases : operator = "!" ∨ operator = "-" := by simpa [unarySpellings] using hop
  rcases hcases with rfl | rfl
  · exact ⟨.not, by decide, scans_not hfirst⟩
  · exact ⟨.dash, by decide, scans_mark rfl⟩

theorem scans_binaryOperator {operator : String} (hop : binarySpellings.contains operator) :
    ∃ (stratum : Stratum) (k : Kind), k ∈ stratum.operators ∧
      ∀ rest, Scans operator.toList (' ' :: rest) (IsToken k operator.toList) := by
  have hcases : operator ∈ binarySpellings := by simpa using hop
  simp only [binarySpellings, List.mem_cons, List.not_mem_nil, or_false] at hcases
  -- each spelling, with the stratum of its kind
  rcases hcases with rfl | rfl | rfl | rfl | rfl | rfl | rfl | rfl
  · exact ⟨.equality, .equals, by decide, fun _ => scans_mark rfl⟩
  · exact ⟨.equality, .notEquals, by decide, fun _ => scans_mark rfl⟩
  · exact ⟨.comparison, .less, by decide, fun _ => scans_mark rfl⟩
  · exact ⟨.comparison, .greater, by decide, fun _ => scans_mark rfl⟩
  · exact ⟨.sum, .plus, by decide, fun _ => scans_mark rfl⟩
  · exact ⟨.sum, .dash, by decide, fun _ => scans_mark rfl⟩
  · exact ⟨.product, .star, by decide, fun _ => scans_mark rfl⟩
  · exact ⟨.product, .slash, by decide, fun _ => scans_mark rfl⟩

theorem ScansExpr.unary {o : α} {operator : String} {r : Expr α}
    (hop : unarySpellings.contains operator) (hr : ScansExpr r) :
    ScansExpr (.unary o operator r) := by
  have htext : (Expr.unary o operator r).render.toList =
      '(' :: (operator.toList ++ (r.render.toList ++ [')'])) := by
    simp [Expr.render]
  refine ⟨⟨_, _, htext, by decide⟩, fun rest _ => ?_⟩
  -- a `!` before the operand is not the first half of `!=`
  have hfirst : ∀ c ∈ ((r.render.toList ++ [')']) ++ rest).head?, c ≠ '=' := by
    obtain ⟨c, cs, hc, hne⟩ := hr.first
    simpa [hc] using hne
  obtain ⟨k, hk, hscan⟩ := scans_unaryOperator hop hfirst
  rw [htext]
  refine .mark rfl fun opening hopen => hscan.token fun t ht htop => ?_
  apply (hr.scans (')' :: rest) (parted_cons rfl)).append
  intro us hus
  refine .mark rfl fun closing hclose => .nil ?_
  obtain ⟨r', n, hr', rfl, hbare⟩ := hus
  -- the brackets around the operation are one level, and its operand is another one
  have hr'' : IsExpr false .unary us r' r.levels := hr'.loosen (by decide)
  have hunary := IsExpr.unary (ht ▸ hk) hr''
  refine ⟨_, _, .of_primary (.group hopen (hunary.loosen (Nat.zero_le _)) hclose), ?_, ?_⟩
  · rw [Expr.levels]
    omega
  · rw [htop, String.ofList_toList]
    exact congrArg (Expr.unary () operator) hbare

theorem ScansExpr.binary {o : α} {operator : String} {l r : Expr α}
    (hop : binarySpellings.contains operator) (hl : ScansExpr l) (hr : ScansExpr r) :
    ScansExpr (.binary o l operator r) := by
  have htext : (Expr.binary o l operator r).render.toList =
      '(' :: (l.render.toList ++
        ' ' :: (operator.toList ++ ' ' :: (r.render.toList ++ [')']))) := by
    simp [Expr.render]
  refine ⟨⟨_, _, htext, by decide⟩, fun rest _ => ?_⟩
  obtain ⟨stratum, k, hk, hscan⟩ := scans_binaryOperator hop
  rw [htext]
  refine .mark rfl fun opening hopen => ?_
  refine (hl.scans _ (parted_cons rfl)).append fun ts hts => scans_space ?_
  refine (hscan _).token fun t ht htop => scans_space ?_
  apply (hr.scans (')' :: rest) (parted_cons rfl)).append
  intro us hus
  refine .mark rfl fun closing hclose => .nil ?_
  obtain ⟨l', m, hl', rfl, hlbare⟩ := hts
  obtain ⟨r', n, hr', rfl, hrbare⟩ := hus
  -- operands are in brackets where they are operations, so that any stratum will do for them
  have hrank := (precedence_of_mem_operators hk).2.2.1
  have hne : stratum ≠ .primary := by
    rintro rfl
    exact absurd hrank (by decide)
  have hnext := Stratum.rank_tighter hne
  have hcall : Stratum.call.rank = 5 := rfl
  have hbinary := IsExpr.binary (hl'.loosen (by omega)) (ht ▸ hk) (hr'.loosen (by omega))
  have hgroup := IsExpr.group hopen (hbinary.loosen (Nat.zero_le _)) hclose
  rw [List.append_assoc, List.cons_append] at hgroup
  refine ⟨_, _, hgroup.of_primary, ?_, ?_⟩
  · rw [Expr.levels]
    omega
  · rw [htop, String.ofList_toList]
    show Expr.binary () l'.bare operator r'.bare = Expr.binary () l.bare operator r.bare
    rw [hlbare, hrbare]

/-! ### Lists -/

section Lists

variable {β : Type} {as : List β}

/-- The tokens are those of each item, with a comma between two of them. -/
inductive Listed (P : β → List Token → Prop) : List β → List Token → Prop
  | nil : Listed P [] []
  | one {a ts} : P a ts → Listed P [a] ts
  | cons {a b as ts us comma} : P a ts → comma.kind = .comma → Listed P (b :: as) us →
      Listed P (a :: b :: as) (ts ++ comma :: us)

theorem scans_listed {text : β → String} {P : β → List Token → Prop}
    (h : ∀ a ∈ as, ∀ rest, Parted rest → Scans (text a).toList rest (P a)) (hrest : Parted rest) :
    Scans (", ".intercalate (as.map text)).toList rest (Listed P as) := by
  induction as with
  | nil => exact .nil .nil
  | cons a as ih =>
    rw [List.forall_mem_cons] at h
    rcases as with - | ⟨b, as⟩
    · -- the last item has no comma behind it
      exact (h.1 rest hrest).imp fun _ => .one
    · have htext : (", ".intercalate ((a :: b :: as).map text)).toList =
          (text a).toList ++ ',' :: ' ' :: (", ".intercalate ((b :: as).map text)).toList :=
        toList_intercalate_cons_cons ", " (text a) (text b) _
      rw [htext]
      -- an item, its comma and the space, and the other items
      apply (h.1 _ (parted_cons rfl)).append
      intro ts hts
      refine .mark rfl fun comma hcomma => scans_space ?_
      exact (ih h.2).imp fun us hus => .cons hts hcomma hus

end Lists

/-! ### Calls -/

theorem exists_arguments {es : List (Expr α)} (h : Listed SpellsExpr es ts) :
    ∃ es' n, IsArguments false ts es' n ∧ n = Expr.levelsEach es ∧
      Expr.mapEach (fun _ => ()) es' = Expr.mapEach (fun _ => ()) es := by
  induction h with
  | nil => exact ⟨[], 0, .none, rfl, rfl⟩
  | one h =>
    obtain ⟨e', n, he', rfl, hbare⟩ := h
    refine ⟨[e'], _, .one (he'.loosen (Nat.zero_le _)), ?_, ?_⟩
    · rw [Expr.levelsEach, Expr.levelsEach, Nat.max_zero]
    · exact congrArg (fun e => [e]) hbare
  | cons h hk _ ih =>
    obtain ⟨e', m, he', rfl, hbare⟩ := h
    obtain ⟨es', n, hes', rfl, hesbare⟩ := ih
    -- another argument follows the comma
    have hne : es' ≠ [] := by
      rintro rfl
      cases hesbare
    refine ⟨e' :: es', _, hes'.cons (he'.loosen (Nat.zero_le _)) hk hne, rfl, ?_⟩
    show e'.bare :: Expr.mapEach (fun _ => ()) es' = _
    rw [hbare, hesbare]
    rfl

theorem ScansExpr.call {o : α} {f : Expr α} {es : List (Expr α)} (hf : ScansExpr f)
    (hes : ∀ e ∈ es, ScansExpr e) : ScansExpr (.call o f es) := by
  have htext : (Expr.call o f es).render.toList =
      f.render.toList ++ '(' :: ((", ".intercalate (Expr.renderEach es)).toList ++ [')']) := by
    simp only [Expr.render, String.toList_append, List.append_assoc]
    rfl
  constructor
  · obtain ⟨c, cs, hc, hne⟩ := hf.first
    rw [hc] at htext
    exact ⟨c, _, htext, hne⟩
  intro rest _
  rw [htext]
  apply (hf.scans _ (parted_cons rfl)).append
  intro ts hts
  refine .mark rfl fun opening hopen => ?_
  rw [Expr.renderEach_eq_map]
  refine (scans_listed (fun e he => (hes e he).scans) (parted_cons rfl)).append ?_
  intro us hus
  refine .mark rfl fun closing hclose => .nil ?_
  -- the tokens of the callee and of the arguments, put together
  obtain ⟨f', m, hf', rfl, hfbare⟩ := hts
  obtain ⟨es', n, hes', rfl, hesbare⟩ := exists_arguments hus
  refine ⟨_, _, .call hf' hopen hes' hclose, ?_, ?_⟩
  · rw [Expr.levels]
  · show Expr.call () f'.bare (Expr.mapEach (fun _ => ()) es') =
      Expr.call () f.bare (Expr.mapEach _ es)
    rw [hfbare, hesbare]

/-! ### Blocks, functions and conditionals -/

/-- The text of the block is scanned into tokens that spell it, whatever comes behind it. -/
def ScansBlock (b : Block α) : Prop :=
  ∀ rest, Scans b.render.toList rest (SpellsBlock b)

theorem exists_parameters {xs : List (Name α)}
    (h : Listed (fun x ts => IsToken .identifier x.text.toList ts) xs ts) :
    ∃ xs', IsList IsParameter ts xs' ∧
      xs'.map (Name.map fun _ => ()) = xs.map (Name.map fun _ => ()) := by
  -- a list that is not empty is made up of items
  have hitems : xs ≠ [] → ∃ xs', IsItems IsParameter ts xs' ∧
      xs'.map (Name.map fun _ => ()) = xs.map (Name.map fun _ => ()) := by
    induction h with
    | nil => exact fun h => absurd rfl h
    | one h =>
      obtain ⟨t, rfl, hk, htext⟩ := h
      rw [String.ofList_toList] at htext
      refine fun _ => ⟨_, .one (.name hk), ?_⟩
      simp [Name.map, htext]
    | cons h hk _ ih =>
      obtain ⟨t, rfl, hkind, htext⟩ := h
      obtain ⟨xs', hxs', hnames⟩ := ih (List.cons_ne_nil _ _)
      rw [String.ofList_toList] at htext
      refine fun _ => ⟨_, hxs'.cons (.name hkind) hk, ?_⟩
      rw [List.map_cons, hnames]
      simp [Name.map, htext]
  cases h with
  | nil => exact ⟨[], .none, rfl⟩
  | one _ | cons _ _ _ =>
    obtain ⟨xs', hxs', hnames⟩ := hitems (List.cons_ne_nil _ _)
    exact ⟨xs', .items hxs', hnames⟩

theorem ScansExpr.function {o : α} {xs : List (Name α)} {b : Block α}
    (hxs : xs.all (isName ·.text)) (hb : ScansBlock b) : ScansExpr (.function o xs b) := by
  have htext : (Expr.function o xs b).render.toList =
      ['f', 'n'] ++ '(' :: ((", ".intercalate (xs.map Name.text)).toList ++
        ')' :: ' ' :: b.render.toList) := by
    simp only [Expr.render, String.toList_append, List.append_assoc]
    rfl
  refine ⟨⟨'f', _, htext, by decide⟩, fun rest _ => ?_⟩
  have hnames : ∀ x ∈ xs, ∀ rest, Parted rest →
      Scans x.text.toList rest (IsToken .identifier x.text.toList) :=
    fun x hx rest hrest => scans_name (List.all_eq_true.mp hxs x hx) hrest
  rw [htext]
  apply (scans_keyword (k := .kwFn) rfl rfl rfl (parted_cons rfl)).token
  intro keyword hfn _
  refine .mark rfl fun opening hopen => ?_
  apply (scans_listed hnames (parted_cons rfl)).append
  intro us hus
  refine .mark rfl fun closing hclose => scans_space ?_
  apply (hb rest).imp
  intro vs hvs
  obtain ⟨xs', hxs', hxsbare⟩ := exists_parameters hus
  obtain ⟨b', n, hb', rfl, hbare⟩ := hvs
  -- the tokens of the parts, put together
  have hfunction := IsExpr.function hfn hopen hxs' hclose hb' rfl
  refine ⟨_, _, hfunction.of_primary, rfl, ?_⟩
  show Expr.function () (xs'.map _) b'.bare = Expr.function () (xs.map _) b.bare
  rw [hxsbare, hbare]

/-- The tokens are the second branch of a conditional that is `f` but for its annotations. -/
def SpellsElse (f : Option (Block α)) (ts : List Token) : Prop :=
  ∃ f' n, IsAlternative false ts f' n ∧ n = Block.levelsElse f ∧
    Block.mapOption (fun _ => ()) f' = Block.mapOption (fun _ => ()) f

theorem scans_else {f : Option (Block α)} (hf : ∀ b ∈ f, ScansBlock b) :
    Scans (Block.renderElse f).toList rest (SpellsElse f) := by
  cases f with
  | none => exact .nil ⟨none, 0, .none, rfl, rfl⟩
  | some b =>
    have htext : (Block.renderElse (some b)).toList =
        ' ' :: (['e', 'l', 's', 'e'] ++ ' ' :: b.render.toList) := by
      rw [Block.renderElse, String.toList_append]
      rfl
    rw [htext]
    apply scans_space
    apply (scans_keyword (k := .kwElse) rfl rfl rfl (parted_cons rfl)).token
    intro keyword helse _
    refine scans_space ((hf b rfl rest).imp fun vs hvs => ?_)
    obtain ⟨b', n, hb', rfl, hbare⟩ := hvs
    exact ⟨some b', _, .some helse hb', rfl, congrArg some hbare⟩

theorem ScansExpr.conditional {o : α} {c : Expr α} {b : Block α} {f : Option (Block α)}
    (hc : ScansExpr c) (hb : ScansBlock b) (hf : ∀ b ∈ f, ScansBlock b) :
    ScansExpr (.conditional o c b f) := by
  have htext : (Expr.conditional o c b f).render.toList =
      ['i', 'f'] ++ ' ' :: '(' :: (c.render.toList ++
        ')' :: ' ' :: (b.render.toList ++ (Block.renderElse f).toList)) := by
    simp only [Expr.render, String.toList_append, List.append_assoc]
    rfl
  refine ⟨⟨'i', _, htext, by decide⟩, fun rest _ => ?_⟩
  rw [htext]
  apply (scans_keyword (k := .kwIf) rfl rfl rfl (parted_cons rfl)).token
  intro keyword hif _
  refine scans_space (.mark rfl fun opening hopen => ?_)
  apply (hc.scans _ (parted_cons rfl)).append
  intro us hus
  refine .mark rfl fun closing hclose => scans_space ?_
  refine (hb _).append fun vs hvs => (scans_else hf).imp fun ws hws => ?_
  obtain ⟨c', k, hc', rfl, hcbare⟩ := hus
  obtain ⟨b', m, hb', rfl, hbbare⟩ := hvs
  obtain ⟨f', n, hf', rfl, hfbare⟩ := hws
  -- the tokens of the parts, put together
  have hconditional := IsExpr.conditional hif hopen (hc'.loosen (Nat.zero_le _)) hclose hb' hf' rfl
  refine ⟨_, _, hconditional.of_primary, rfl, ?_⟩
  show Expr.conditional () c'.bare b'.bare (Block.mapOption _ f') =
    Expr.conditional () c.bare b.bare (Block.mapOption _ f)
  rw [hcbare, hbbare, hfbare]

/-! ### Statements -/

/-- The text of the statement is scanned into tokens that spell it, whatever comes behind it. -/
def ScansStmt (s : Stmt α) : Prop :=
  ∀ rest, Scans s.render.toList rest (SpellsStmt s)

/-- The tokens are statements that are `ss` but for their annotations,
whatever comes behind them. -/
def SpellsStmts (ss : List (Stmt α)) (ts : List Token) : Prop :=
  ∃ ss' n, (∀ next, IsStmts false next ts ss' n) ∧ n = Stmt.levelsEach ss ∧
    ss'.map Stmt.bare = ss.map Stmt.bare

/-- The expression that a statement ends with, and the semicolon. -/
theorem ScansExpr.ended {e : Expr α} {P : List Token → Prop} (he : ScansExpr e)
    (h : ∀ us e' semicolon, IsExpr false .call us e' e.levels → e'.bare = e.bare →
      semicolon.kind = .semicolon → P (us ++ [semicolon])) :
    Scans (e.render.toList ++ [';']) rest P := by
  apply (he.scans _ (parted_cons rfl)).append
  intro us hus
  obtain ⟨e', n, he', rfl, hbare⟩ := hus
  exact .mark rfl fun semicolon hsemi => .nil (h us e' semicolon he' hbare hsemi)

theorem ScansStmt.binding {o : α} {name : Name α} {e : Expr α} (hname : isName name.text)
    (he : ScansExpr e) : ScansStmt (.binding o name e) := by
  intro rest
  have htext : (Stmt.binding o name e).render.toList =
      ['l', 'e', 't'] ++
        ' ' :: (name.text.toList ++ ' ' :: '=' :: ' ' :: (e.render.toList ++ [';'])) := by
    simp only [Stmt.render, String.toList_append, List.append_assoc]
    rfl
  rw [htext]
  apply (scans_keyword (k := .kwLet) rfl rfl rfl (parted_cons rfl)).token
  intro keyword hlet _
  refine scans_space ((scans_name hname (parted_cons rfl)).token ?_)
  intro t ht htname
  refine scans_space (.mark rfl fun assignment hassign => scans_space (he.ended ?_))
  -- the tokens between the keyword and the semicolon, put together
  intro us e' semicolon he' hbare hsemi
  rw [String.ofList_toList] at htname
  refine ⟨_, _, fun next => .binding hlet ht hassign (he'.loosen (Nat.zero_le _))
    (.semicolon hsemi) rfl, rfl, ?_⟩
  show Stmt.binding () ⟨(), t.text⟩ e'.bare = Stmt.binding () ⟨(), name.text⟩ e.bare
  rw [htname, hbare]

theorem ScansStmt.returning {o : α} {e : Expr α} (he : ScansExpr e) :
    ScansStmt (.returning o e) := by
  intro rest
  have htext : (Stmt.returning o e).render.toList =
      ['r', 'e', 't', 'u', 'r', 'n'] ++ ' ' :: (e.render.toList ++ [';']) := by
    simp only [Stmt.render, String.toList_append, List.append_assoc]
    rfl
  rw [htext]
  apply (scans_keyword (k := .kwReturn) rfl rfl rfl (parted_cons rfl)).token
  intro keyword hreturn _
  apply scans_space (he.ended ?_)
  intro us e' semicolon he' hbare hsemi
  refine ⟨_, _, fun next => .returning hreturn (he'.loosen (Nat.zero_le _)) (.semicolon hsemi) rfl,
    rfl, ?_⟩
  exact congrArg (Stmt.returning ()) hbare

theorem ScansStmt.expression {o : α} {e : Expr α} (he : ScansExpr e) :
    ScansStmt (.expression o e) := by
  intro rest
  have htext : (Stmt.expression o e).render.toList = e.render.toList ++ [';'] := by
    rw [Stmt.render, String.toList_append]
    rfl
  rw [htext]
  apply he.ended
  intro us e' semicolon he' hbare hsemi
  -- the statement begins with the first token of the expression
  obtain ⟨first, us, rfl, -⟩ := he'.first
  refine ⟨_, _, fun next => .expression (he'.loosen (Nat.zero_le _)) (.semicolon hsemi) rfl rfl,
    rfl, ?_⟩
  exact congrArg (Stmt.expression ()) hbare

theorem ScansStmt.block {b : Block α} (hb : ScansBlock b) : ScansStmt (.block b) := by
  intro rest
  apply (hb rest).imp
  intro ts hts
  obtain ⟨b', n, hb', rfl, hbare⟩ := hts
  exact ⟨_, _, fun next => .block hb', rfl, congrArg Stmt.block hbare⟩

theorem SpellsStmts.cons {s : Stmt α} {ss : List (Stmt α)} (h : SpellsStmt s ts)
    (hs : SpellsStmts ss us) : SpellsStmts (s :: ss) (ts ++ us) := by
  obtain ⟨s', m, hs', rfl, hbare⟩ := h
  obtain ⟨ss', n, hss', rfl, hsbare⟩ := hs
  refine ⟨s' :: ss', _, fun next => .cons (hs' _) (hss' next), rfl, ?_⟩
  rw [List.map_cons, List.map_cons, hbare, hsbare]

theorem SpellsStmts.nil : SpellsStmts ([] : List (Stmt α)) [] :=
  ⟨[], 0, fun _ => .nil, rfl, rfl⟩

/-- The statements of a block, each with a space before it. -/
theorem scans_body {ss : List (Stmt α)} (hs : ∀ s ∈ ss, ScansStmt s) :
    Scans (String.join ((Stmt.renderEach ss).map (" " ++ ·))).toList rest (SpellsStmts ss) := by
  induction ss with
  | nil => exact .nil .nil
  | cons s ss ih =>
    rw [List.forall_mem_cons] at hs
    have htext : (String.join ((Stmt.renderEach (s :: ss)).map (" " ++ ·))).toList =
        ' ' :: (s.render.toList ++ (String.join ((Stmt.renderEach ss).map (" " ++ ·))).toList) := by
      rw [Stmt.renderEach, List.map_cons, String.join_cons, String.toList_append,
        String.toList_append, List.append_assoc]
      rfl
    -- a space, the first statement, and the others
    rw [htext]
    refine scans_space ((hs.1 _).append ?_)
    intro ts hts
    exact (ih hs.2).imp fun us hus => SpellsStmts.cons hts hus

theorem ScansBlock.braces {o : α} {ss : List (Stmt α)} (hs : ∀ s ∈ ss, ScansStmt s) :
    ScansBlock ⟨o, ss⟩ := by
  intro rest
  have htext : (Block.render ⟨o, ss⟩).toList =
      '{' :: ((String.join ((Stmt.renderEach ss).map (" " ++ ·))).toList ++ [' ', '}']) := by
    rw [Block.render, String.toList_append, String.toList_append, List.append_assoc]
    rfl
  rw [htext]
  refine .mark rfl fun opening hopen => ?_
  apply (scans_body hs).append
  intro us hus
  refine scans_space (.mark rfl fun closing hclose => .nil ?_)
  obtain ⟨ss', n, hss', rfl, hbare⟩ := hus
  refine ⟨_, _, .braces hopen (hss' _) hclose, rfl, ?_⟩
  show (⟨(), Stmt.mapEach _ ss'⟩ : Block Unit) = ⟨(), Stmt.mapEach _ ss⟩
  rw [Stmt.mapEach_eq_map, Stmt.mapEach_eq_map]
  exact congrArg _ hbare

/-- The statements of a program, with a space between two of them. -/
theorem scans_statements {ss : List (Stmt α)} (hs : ∀ s ∈ ss, ScansStmt s) :
    Scans (" ".intercalate (ss.map Stmt.render)).toList rest (SpellsStmts ss) := by
  induction ss with
  | nil => exact .nil .nil
  | cons s ss ih =>
    rw [List.forall_mem_cons] at hs
    rcases ss with - | ⟨s', ss⟩
    · -- the last statement has no space behind it
      apply (hs.1 rest).imp
      intro ts hts
      have hcons := SpellsStmts.cons hts .nil
      rwa [List.append_nil] at hcons
    · have htext : (" ".intercalate ((s :: s' :: ss).map Stmt.render)).toList =
          s.render.toList ++ ' ' :: (" ".intercalate ((s' :: ss).map Stmt.render)).toList :=
        toList_intercalate_cons_cons " " s.render s'.render _
      rw [htext]
      apply (hs.1 _).append
      intro ts hts
      exact scans_space ((ih hs.2).imp fun us hus => SpellsStmts.cons hts hus)

/-! ### All well-formed trees -/

mutual

theorem scans_expr : ∀ {e : Expr α}, e.wellFormed → ScansExpr e
  | .identifier _, h => .identifier h
  | .integer _ value, h => by
    rw [Expr.wellFormed, Bool.and_eq_true, decide_eq_true_eq, decide_eq_true_eq] at h
    exact .integer h.1 h.2
  | .boolean .., _ => .boolean
  | .unary .., h => by
    rw [Expr.wellFormed, Bool.and_eq_true] at h
    exact .unary h.1 (scans_expr h.2)
  | .binary .., h => by
    rw [Expr.wellFormed, Bool.and_eq_true, Bool.and_eq_true] at h
    exact .binary h.1.1 (scans_expr h.1.2) (scans_expr h.2)
  | .conditional .., h => by
    rw [Expr.wellFormed, Bool.and_eq_true, Bool.and_eq_true] at h
    exact .conditional (scans_expr h.1.1) (scans_block h.1.2) (scans_alternative h.2)
  | .function .., h => by
    rw [Expr.wellFormed, Bool.and_eq_true] at h
    exact .function h.1 (scans_block h.2)
  | .call .., h => by
    rw [Expr.wellFormed, Bool.and_eq_true] at h
    exact .call (scans_expr h.1) (scans_exprs h.2)

theorem scans_exprs : ∀ {es : List (Expr α)}, Expr.wellFormedEach es → ∀ e ∈ es, ScansExpr e
  | [], _ => fun _ he => nomatch he
  | _ :: _, h => by
    rw [Expr.wellFormedEach, Bool.and_eq_true] at h
    exact List.forall_mem_cons.mpr ⟨scans_expr h.1, scans_exprs h.2⟩

theorem scans_block : ∀ {b : Block α}, b.wellFormed → ScansBlock b
  | ⟨_, _⟩, h => .braces (scans_stmts h)

theorem scans_alternative :
    ∀ {f : Option (Block α)}, Block.wellFormedElse f → ∀ b ∈ f, ScansBlock b
  | none, _ => fun _ hb => nomatch hb
  | some _, h => fun _ hb => Option.some.inj hb ▸ scans_block h

theorem scans_stmt : ∀ {s : Stmt α}, s.wellFormed → ScansStmt s
  | .binding .., h => by
    rw [Stmt.wellFormed, Bool.and_eq_true] at h
    exact .binding h.1 (scans_expr h.2)
  | .returning .., h => .returning (scans_expr h)
  | .expression .., h => .expression (scans_expr h)
  | .block _, h => .block (scans_block h)

theorem scans_stmts : ∀ {ss : List (Stmt α)}, Stmt.wellFormedEach ss → ∀ s ∈ ss, ScansStmt s
  | [], _ => fun _ hs => nomatch hs
  | _ :: _, h => by
    rw [Stmt.wellFormedEach, Bool.and_eq_true] at h
    exact List.forall_mem_cons.mpr ⟨scans_stmt h.1, scans_stmts h.2⟩

end

/-- Tokens that have the pieces of the canonical text of a well-formed program
are, in the grammar, a program that is the same but for its annotations. -/
theorem exists_isProgram_of_pieces {p : Program α} (h : p.wellFormed)
    (hts : ts.map Token.piece = pieces p.render.toList) :
    ∃ p' n, IsProgram false ts p' n ∧ n = Stmt.levelsEach p.statements ∧ p'.bare = p.bare := by
  have hscans : Scans p.render.toList [] (SpellsStmts p.statements) :=
    scans_statements fun s hs => scans_stmt (List.all_eq_true.mp h s hs)
  obtain ⟨ss', n, hss', hn, hbare⟩ := hscans.of_pieces hts
  exact ⟨⟨ss'⟩, n, hss' .eof, hn, congrArg Program.mk hbare⟩

/-- The canonical text of a well-formed program falls into tokens of the
grammar for a program that is the same but for its annotations. -/
theorem exists_isProgram_render {p : Program α} (h : p.wellFormed) (file : String)
    (hsize : p.render.utf8ByteSize ≤ maxOffset) :
    ∃ p' n, IsProgram false (TokenStream.ofSource file p.render).pending p' n ∧
      n = Stmt.levelsEach p.statements ∧ p'.bare = p.bare :=
  exists_isProgram_of_pieces h (map_piece_ofSource file hsize)

end Grammar

end LetFn
