/-
LetFn/Proofs/LongestMatch.lean

The first match is the longest match.

The classes of lexemes are tried in an order (`LexemeClass.tried`): the first
one that admits a front of the text is taken, with the longest front that it
admits.  Three classes have members that are the beginning of a member of
another class (`LexemeClass.Overlaps`), and each time the other class is tried
earlier.  So what is taken is the longest front that any class admits at all,
and where no class admits one, the text begins with a stray character.

`Lexeme.Heads` says this without an order.  There is no more than one lexeme
of this kind, and it is the one that `Lexeme.first` gives
(`Lexeme.heads_iff`); so whoever asks what a text begins with can look at its
fronts, and need not go through the order.  So the text of a lexeme is such a
lexeme by itself (`Heads.alone`), and what follows it matters no further than
its first character (`Heads.congr`).

Main statement: `Scanner.exists_takes`.
-/
import LetFn.Proofs.Tiling

namespace LetFn

open LetFn.Text (dropBytes? isBlank)

variable {x b : Char} {xs ys text front more : List Char}
variable {k : Kind} {kind : LexemeClass} {l m : Lexeme}

/-! ### Classes and their members -/

/-- The kinds of marks, in the order in which they are tried. -/
def Kind.marks : List Kind :=
  [openCurly, closeCurly, openParen, closeParen, equals, notEquals, not, assignment, less, greater,
    semicolon, comma, plus, dash, slash, star]

namespace LexemeClass

/-- The characters can be a lexeme of the class. -/
inductive Admits : LexemeClass → List Char → Prop
  | word {c cs} : isWordStart c → cs.all isWordPart → Admits .word (c :: cs)
  | digits {c cs} : c.isDigit → cs.all Char.isDigit → Admits .digits (c :: cs)
  | blank {c cs} : isBlank c → cs.all isBlank → Admits .blank (c :: cs)
  | comment {line} : '\n' ∉ line → Admits .comment ('/' :: '/' :: line)
  | mark {k spelling} : k ∈ Kind.marks → k.spelling? = some spelling →
      Admits (.mark k) spelling.toList

/-- The classes, in the order in which they are tried. -/
def tried : List LexemeClass := [word, digits, blank, comment] ++ Kind.marks.map mark

/-- A member of the first class can be the beginning of one of the second. -/
inductive Overlaps : LexemeClass → LexemeClass → Prop
  | comment : Overlaps (mark .slash) comment
  | equals : Overlaps (mark .assignment) (mark .equals)
  | notEquals : Overlaps (mark .not) (mark .notEquals)

theorem Overlaps.ne {shorter longer : LexemeClass} (h : Overlaps shorter longer) :
    shorter ≠ longer := by
  cases h <;> decide

/-- Of two classes that overlap, the one with the longer members is tried first. -/
theorem Overlaps.tried {shorter longer : LexemeClass} (h : Overlaps shorter longer) :
    longer ∈ tried.takeWhile (· ≠ shorter) ∧ shorter ∉ tried.takeWhile (· ≠ longer) := by
  cases h <;> decide

theorem Admits.ne_nil (h : kind.Admits front) : front ≠ [] := by
  cases h with
  | word | digits | blank | comment => exact List.cons_ne_nil _ _
  | mark hk hs =>
    rintro hnil
    rw [String.toList_eq_nil_iff.mp hnil] at hs
    revert hk hs
    cases ‹Kind› <;> decide

theorem Admits.mem_marks (h : Admits (.mark k) front) : k ∈ Kind.marks := by
  cases h with
  | mark hk => exact hk

end LexemeClass

/-! ### Fronts of a text and its first lexeme -/

/-- A run within the text does not go beyond the whole run. -/
theorem isPrefix_takeWhile {p : Char → Bool} (hys : ys.all p) (h : ys <+: xs) :
    ys <+: xs.takeWhile p := by
  obtain ⟨zs, rfl⟩ := h
  rw [List.takeWhile_append_of_pos (List.all_eq_true.mp hys)]
  exact List.prefix_append ys _

/-- Where a mark begins, no run does. -/
theorem not_run_of_mark? {spelling : List Char} (h : mark? (x :: xs) = some (k, spelling)) :
    ¬ isWordStart x ∧ ¬ x.isDigit ∧ ¬ isBlank x := by
  unfold mark? at h
  split at h
  case h_17 => cases h
  all_goals
    next heq =>
    cases heq
    decide

/-- A mark in front of a text is the mark that is found there, or the first
half of it. -/
theorem mark?_of_spelling {spelling : String} (hk : k ∈ Kind.marks)
    (hs : k.spelling? = some spelling) (h : spelling.toList <+: text) :
    ∃ k' found, mark? text = some (k', found) ∧ (k' = k ∧ found = spelling.toList ∨
      LexemeClass.Overlaps (.mark k) (.mark k') ∧ spelling.toList.length < found.length) := by
  obtain ⟨rest, rfl⟩ := h
  cases k
  -- the two marks that are the first half of another one
  case not | assignment =>
    cases hs
    rcases rest with - | ⟨c, rest⟩
    · exact ⟨_, _, rfl, .inl ⟨rfl, rfl⟩⟩
    · by_cases hc : c = '='
      · subst hc
        exact ⟨_, _, rfl, .inr ⟨by constructor, by decide⟩⟩
      · exact ⟨_, _, by simp [mark?, hc], .inl ⟨rfl, rfl⟩⟩
  -- kinds that are no marks
  case eof | illegal | number | identifier => cases hs
  case kwLet | kwFn | kwReturn | kwIf | kwElse | kwTrue | kwFalse => exact absurd hk (by decide)
  -- any other mark is found as it is
  all_goals
    cases hs
    exact ⟨_, _, rfl, .inl ⟨rfl, rfl⟩⟩

namespace Lexeme

theorem first_of_mark? {spelling : List Char} (h : mark? (x :: xs) = some (k, spelling))
    (hslash : ¬ (x = '/' ∧ xs.head? = some '/')) : first x xs = ⟨.mark k, spelling⟩ := by
  obtain ⟨hword, hdigit, hblank⟩ := not_run_of_mark? h
  rw [first, if_neg hword, if_neg hdigit, if_neg hblank, if_neg (by simpa using hslash), h]

/-- The front of a text that a class admits is not longer than the first
lexeme, and a front of it if the classes are the same. -/
theorem le_first_of_admits (h : kind.Admits front) (hfront : front <+: x :: xs) :
    kind = (first x xs).kind ∧ front <+: (first x xs).text ∨
      kind.Overlaps (first x xs).kind ∧
        front.length < (first x xs).text.length := by
  cases h with
  -- words, numerals and blanks: the first lexeme is the whole run
  | word hc hcs =>
    obtain ⟨rfl, hrun⟩ := List.cons_prefix_cons.mp hfront
    rw [first, if_pos hc]
    exact .inl ⟨rfl, List.cons_prefix_cons.mpr ⟨rfl, isPrefix_takeWhile hcs hrun⟩⟩
  | digits hc hcs =>
    obtain ⟨rfl, hrun⟩ := List.cons_prefix_cons.mp hfront
    rw [first_of_isDigit hc]
    exact .inl ⟨rfl, List.cons_prefix_cons.mpr ⟨rfl, isPrefix_takeWhile hcs hrun⟩⟩
  | @blank c cs hc hcs =>
    obtain ⟨rfl, hrun⟩ := List.cons_prefix_cons.mp hfront
    have hl : first c (xs.takeWhile isBlank ++ xs.dropWhile isBlank) = _ := first_of_isBlank hc
    rw [List.takeWhile_append_dropWhile] at hl
    rw [hl]
    exact .inl ⟨rfl, List.cons_prefix_cons.mpr ⟨rfl, isPrefix_takeWhile hcs hrun⟩⟩
  | @comment line hline =>
    obtain ⟨rfl, hrun⟩ := List.cons_prefix_cons.mp hfront
    obtain ⟨zs, rfl⟩ := hrun
    -- a comment is a run as well, of what is no newline
    have hall : ('/' :: line).all (· != '\n') := by
      rw [List.all_eq_true]
      rintro c hc
      rw [bne_iff_ne]
      rintro rfl
      exact hline (by simpa using hc)
    exact .inl ⟨rfl, List.cons_prefix_cons.mpr
      ⟨rfl, isPrefix_takeWhile hall (List.prefix_append _ zs)⟩⟩
  | @mark k spelling hk hs =>
    obtain ⟨k', found, hmark, hfound⟩ := mark?_of_spelling hk hs hfront
    by_cases hslash : x = '/' ∧ xs.head? = some '/'
    · -- a comment begins with the mark for a division, and is longer
      obtain ⟨rfl, hhead⟩ := hslash
      obtain ⟨ys, rfl⟩ := List.head?_eq_some_iff.mp hhead
      cases hmark
      rcases hfound with ⟨rfl, hfound⟩ | ⟨⟨⟩, -⟩
      refine .inr ⟨.comment, ?_⟩
      rw [← hfound]
      exact Nat.succ_lt_succ (Nat.succ_pos _)
    · -- no comment begins here, so the mark that is found is the first lexeme
      rw [first_of_mark? hmark hslash]
      rcases hfound with ⟨rfl, rfl⟩ | hfound
      · exact .inl ⟨rfl, List.prefix_refl _⟩
      · exact .inr hfound

/-- The first lexeme is admitted by its class, unless it is a stray character. -/
theorem admits_first (x : Char) (xs : List Char) :
    (first x xs).kind.Admits (first x xs).text ∨ first x xs = ⟨.stray, [x]⟩ := by
  unfold first
  split
  · -- in the order in which the classes are tried
    next hx => exact .inl (.word hx List.all_takeWhile)
  split
  · next hx => exact .inl (.digits hx List.all_takeWhile)
  split
  · next hx => exact .inl (.blank hx List.all_takeWhile)
  split
  · next hx =>
    obtain ⟨rfl, hhead⟩ : x = '/' ∧ xs.head? = some '/' := by simpa using hx
    obtain ⟨ys, rfl⟩ := List.head?_eq_some_iff.mp hhead
    -- the run of a comment stops before the newline
    refine .inl (.comment fun hmem => ?_)
    simpa using List.all_eq_true.mp List.all_takeWhile _ hmem
  split
  · next k spelling hmark =>
    have hs := (mark?_eq_some hmark).2.2
    -- what the table finds is one of the marks
    have hk : k ∈ Kind.marks := by
      unfold mark? at hmark
      split at hmark
      case h_17 => cases hmark
      all_goals
        cases hmark
        decide
    have hadmits := LexemeClass.Admits.mark hk hs
    rw [String.toList_ofList] at hadmits
    exact .inl hadmits
  · -- nothing has matched
    exact .inr rfl

/-! ### The longest match -/

/-- The lexeme is the longest front of the text that any class admits, and no
other class admits it. -/
structure Longest (l : Lexeme) (text : List Char) : Prop where
  front : l.text <+: text
  admits : l.kind.Admits l.text
  others : ∀ kind front, front <+: text → kind.Admits front →
    front.length < l.text.length ∨ kind = l.kind ∧ front = l.text

/-- No class admits a front of the text. -/
def NoneAdmits (text : List Char) : Prop :=
  ∀ (kind : LexemeClass) (front : List Char), front <+: text → ¬ kind.Admits front

/-- What the text begins with: the longest front that a class admits, or else
a stray character. -/
inductive Heads : Lexeme → List Char → Prop
  | longest {l : Lexeme} {text : List Char} : l.Longest text → Heads l text
  | stray {c : Char} {rest : List Char} : NoneAdmits (c :: rest) → Heads ⟨.stray, [c]⟩ (c :: rest)

theorem noneAdmits_of_stray (h : first x xs = ⟨.stray, [x]⟩) : NoneAdmits (x :: xs) := by
  intro kind front hfront hadmits
  rcases le_first_of_admits hadmits hfront with ⟨rfl, -⟩ | ⟨hoverlap, -⟩
  · rw [h] at hadmits
    cases hadmits
  · rw [h] at hoverlap
    cases hoverlap

theorem heads_first (x : Char) (xs : List Char) : (first x xs).Heads (x :: xs) := by
  rcases admits_first x xs with hadmits | hstray
  · refine .longest ⟨text_first_isPrefix x xs, hadmits, fun kind front hfront h => ?_⟩
    rcases le_first_of_admits h hfront with ⟨hkind, hle⟩ | ⟨-, hlt⟩
    · -- of its own class, a front is shorter or the same
      rcases Nat.lt_or_eq_of_le hle.length_le with hlt | heq
      · exact .inl hlt
      · exact .inr ⟨hkind, hle.eq_of_length heq⟩
    · exact .inl hlt
  · rw [hstray]
    exact .stray (noneAdmits_of_stray hstray)

namespace Heads

theorem isPrefix (h : l.Heads text) : l.text <+: text := by
  cases h with
  | longest h => exact h.front
  | stray => exact List.cons_prefix_cons.mpr ⟨rfl, List.nil_prefix⟩

theorem ne_nil (h : l.Heads text) : text ≠ [] := by
  cases h with
  | longest h =>
    rintro rfl
    exact h.admits.ne_nil (List.prefix_nil.mp h.front)
  | stray => exact List.cons_ne_nil _ _

/-- The class that admits the whole text is that of its first lexeme. -/
theorem kind_eq (h : l.Heads text) (hadmits : kind.Admits text) : kind = l.kind := by
  cases h with
  | longest h =>
    rcases h.others kind text (List.prefix_refl _) hadmits with hlt | ⟨hkind, -⟩
    · exact absurd h.front.length_le (Nat.not_le.mpr hlt)
    · exact hkind
  | stray hnone => exact absurd hadmits (hnone _ _ (List.prefix_refl _))

/-- A lexeme stays the first one of a text if no new fronts are admitted. -/
theorem of_fronts {text' : List Char} (h : l.Heads text) (hfront : l.text <+: text')
    (hall : ∀ (kind : LexemeClass) (front : List Char), front <+: text' → kind.Admits front →
      front <+: text) :
    l.Heads text' := by
  cases h with
  | longest h =>
    refine .longest ⟨hfront, h.admits, fun kind front hf ha => ?_⟩
    exact h.others kind front (hall _ _ hf ha) ha
  | stray hnone =>
    obtain ⟨rest, rfl⟩ := hfront
    exact .stray fun kind front hf ha => hnone kind front (hall _ _ hf ha) ha

/-- A lexeme is the first one of its own text. -/
theorem alone (h : l.Heads text) : l.Heads l.text :=
  h.of_fronts (List.prefix_refl _) fun _ _ hfront _ => hfront.trans h.isPrefix

/-- A text begins with one lexeme. -/
theorem unique (h : l.Heads text) (h' : m.Heads text) : l = m := by
  cases h with
  | longest h =>
    cases h' with
    | longest h' =>
      -- of two longest fronts neither is shorter
      rcases h.others _ _ h'.front h'.admits with hlt | ⟨hkind, htext⟩
      · rcases h'.others _ _ h.front h.admits with hlt' | ⟨hkind, htext⟩
        · exact absurd hlt (Nat.lt_asymm hlt')
        · exact congr (congrArg Lexeme.mk hkind) htext
      · exact (congr (congrArg Lexeme.mk hkind) htext).symm
    | stray hnone => exact absurd h.admits (hnone _ _ h.front)
  | stray hnone =>
    cases h' with
    | longest h' => exact absurd h'.admits (hnone _ _ h'.front)
    | stray => rfl

end Heads

theorem heads_iff : l.Heads (x :: xs) ↔ first x xs = l :=
  ⟨fun h => (heads_first x xs).unique h, fun h => h ▸ heads_first x xs⟩

/-! ### The first match -/

/-- The lexeme is of the first class that admits a front of the text, and the
longest front that this class admits. -/
structure FirstMatch (l : Lexeme) (text : List Char) : Prop where
  front : l.text <+: text
  admits : l.kind.Admits l.text
  earlier : ∀ kind ∈ LexemeClass.tried.takeWhile (· ≠ l.kind),
    ∀ front, front <+: text → ¬ kind.Admits front
  greedy : ∀ front, front <+: text → l.kind.Admits front → front <+: l.text

theorem firstMatch_first (h : (first x xs).kind.Admits (first x xs).text) :
    (first x xs).FirstMatch (x :: xs) where
  front := text_first_isPrefix x xs
  admits := h
  earlier kind hkind front hfront hadmits := by
    rcases le_first_of_admits hadmits hfront with ⟨hsame, -⟩ | ⟨hoverlap, -⟩
    · have hne := List.all_eq_true.mp List.all_takeWhile kind hkind
      exact absurd hsame (of_decide_eq_true hne)
    · exact hoverlap.tried.2 hkind
  greedy front hfront hadmits := by
    rcases le_first_of_admits hadmits hfront with ⟨-, hle⟩ | ⟨hoverlap, -⟩
    · exact hle
    · exact absurd rfl hoverlap.ne

theorem FirstMatch.first_eq (h : l.FirstMatch (x :: xs)) : first x xs = l := by
  rcases admits_first x xs with hadmits | hstray
  · rcases le_first_of_admits h.admits h.front with ⟨hkind, hle⟩ | ⟨hoverlap, -⟩
    · -- within one class both are greedy
      have hge := h.greedy _ (text_first_isPrefix x xs) (hkind ▸ hadmits)
      have htext := hle.eq_of_length_le hge.length_le
      exact congr (congrArg Lexeme.mk hkind.symm) htext.symm
    · -- the class with the longer members would have been taken
      exact absurd hadmits (h.earlier _ hoverlap.tried.1 _ (text_first_isPrefix x xs))
  · exact absurd h.admits (noneAdmits_of_stray hstray _ _ h.front)

/-- The first match is the longest match. -/
theorem firstMatch_iff_longest : l.FirstMatch (x :: xs) ↔ l.Longest (x :: xs) := by
  constructor
  · intro h
    cases heads_iff.mpr h.first_eq with
    | longest hl => exact hl
    | stray hnone => exact absurd h.admits (hnone _ _ h.front)
  · intro h
    obtain rfl := heads_iff.mp (.longest h)
    exact firstMatch_first h.admits

/-! ### What a lexeme depends on -/

/-- A mark is one character, or one with a `=` behind it. -/
theorem tail_of_spelling {spelling : String} (hk : k ∈ Kind.marks)
    (hs : k.spelling? = some spelling) :
    spelling.toList.tail = [] ∨ spelling.toList.tail = ['='] := by
  revert hk
  cases k
  case eof | illegal | number | identifier => cases hs
  all_goals
    cases hs
    decide

/-- Behind the first character of a mark, nothing can stand but one `=`. -/
theorem second_of_spelling {spelling : String} (hk : k ∈ Kind.marks)
    (hs : k.spelling? = some spelling) (h : x :: (xs ++ b :: more) = spelling.toList) :
    xs = [] ∧ b = '=' ∧ more = [] := by
  have htail := tail_of_spelling hk hs
  rw [← h, List.tail_cons] at htail
  -- a mark of two characters has nothing behind its `=`
  rcases htail with hnil | hequals
  · exact absurd hnil (List.append_ne_nil_of_right_ne_nil xs (List.cons_ne_nil b more))
  · rcases xs with - | ⟨y, ys⟩
    · obtain ⟨hb, hmore⟩ := List.cons.inj hequals
      exact ⟨rfl, hb, hmore⟩
    · have hnil := (List.cons.inj hequals).2
      exact absurd hnil (List.append_ne_nil_of_right_ne_nil ys (List.cons_ne_nil b more))

/-- What a class admits, it admits up to any character behind the first one. -/
theorem admits_upTo (h : kind.Admits (front ++ b :: more)) (hne : front ≠ []) :
    kind.Admits (front ++ [b]) := by
  obtain ⟨f, fs, rfl⟩ := List.exists_cons_of_ne_nil hne
  -- a front of a run is a run
  have hrun (p : Char → Bool) (hall : (fs ++ b :: more).all p) : (fs ++ [b]).all p := by
    rw [List.append_cons, List.all_append, Bool.and_eq_true] at hall
    exact hall.1
  rw [List.cons_append] at h ⊢
  generalize htext : f :: (fs ++ b :: more) = text at h
  cases h with
  | word hc hcs =>
    obtain ⟨rfl, rfl⟩ := List.cons.inj htext
    exact .word hc (hrun _ hcs)
  | digits hc hcs =>
    obtain ⟨rfl, rfl⟩ := List.cons.inj htext
    exact .digits hc (hrun _ hcs)
  | blank hc hcs =>
    obtain ⟨rfl, rfl⟩ := List.cons.inj htext
    exact .blank hc (hrun _ hcs)
  | comment hline =>
    obtain ⟨rfl, htail⟩ := List.cons.inj htext
    -- the character is the second slash, or part of the line
    rcases fs with - | ⟨g, fs⟩
    · obtain ⟨rfl, -⟩ := List.cons.inj htail
      exact .comment List.not_mem_nil
    · rw [List.cons_append] at htail
      obtain ⟨rfl, rfl⟩ := List.cons.inj htail
      rw [List.append_cons, List.mem_append, not_or] at hline
      exact .comment hline.1
  | mark hk hs =>
    -- the character is the last one of the mark
    have hadmits := LexemeClass.Admits.mark hk hs
    obtain ⟨rfl, rfl, rfl⟩ := second_of_spelling hk hs htext
    rwa [← htext] at hadmits

/-- Blanks and closing parentheses are not part of a word or of a numeral. -/
theorem not_run_of_parting (hb : isBlank b ∨ b = ')') :
    isWordPart b = false ∧ b.isDigit = false := by
  rcases hb with hb | rfl
  · -- the code points of blanks lie apart from those of digits and letters
    have hcode := toNat_of_isBlank hb
    have hdigit : ¬ b.isDigit := fun h => by
      have := toNat_of_isDigit h
      omega
    have hstart : ¬ isWordStart b := fun h => by
      have := toNat_of_isWordStart h
      omega
    rw [isWordStart, Bool.or_eq_true, not_or] at hstart
    simp [isWordPart, Char.isAlphanum, hdigit, hstart]
  · decide

/-- What goes on behind a blank or a closing parenthesis is a run of blanks or
a comment, and it was one before. -/
theorem admits_before (h : kind.Admits (front ++ b :: more)) (hne : front ≠ [])
    (hb : isBlank b ∨ b = ')') :
    kind.Admits front ∧ (kind = .blank ∨ kind = .comment ∧ b ≠ '\n') := by
  obtain ⟨hpart, hdigit⟩ := not_run_of_parting hb
  obtain ⟨f, fs, rfl⟩ := List.exists_cons_of_ne_nil hne
  rw [List.cons_append] at h
  generalize htext : f :: (fs ++ b :: more) = text at h
  cases h with
  -- no such character is part of a word, a numeral or a mark
  | word _ hcs =>
    obtain ⟨rfl, rfl⟩ := List.cons.inj htext
    simp [hpart] at hcs
  | digits _ hcs =>
    obtain ⟨rfl, rfl⟩ := List.cons.inj htext
    simp [hdigit] at hcs
  | blank hc hcs =>
    obtain ⟨rfl, rfl⟩ := List.cons.inj htext
    rw [List.all_append, Bool.and_eq_true] at hcs
    exact ⟨.blank hc hcs.1, .inl rfl⟩
  | comment hline =>
    obtain ⟨rfl, htail⟩ := List.cons.inj htext
    rcases fs with - | ⟨g, fs⟩
    · -- no such character stands between the two slashes
      obtain ⟨rfl, -⟩ := List.cons.inj htail
      exact absurd hb (by decide)
    · rw [List.cons_append] at htail
      obtain ⟨rfl, rfl⟩ := List.cons.inj htail
      rw [List.mem_append, List.mem_cons, not_or, not_or] at hline
      exact ⟨.comment hline.1, .inr ⟨rfl, Ne.symm hline.2.1⟩⟩
  | mark hk hs =>
    obtain ⟨-, rfl, -⟩ := second_of_spelling hk hs htext
    exact absurd hb (by decide)

/-- The character cannot be part of what the lexeme is part of: no class admits
the lexeme with the character behind it, whatever follows. -/
def ApartFrom (l : Lexeme) (c : Char) : Prop :=
  ∀ (kind : LexemeClass) (more : List Char), ¬ kind.Admits (l.text ++ c :: more)

namespace Heads

/-- A blank or a closing parenthesis stands apart from every lexeme but a run
of blanks, and a comment that has not come to the end of its line. -/
theorem apartFrom (h : l.Heads text) (hb : isBlank b ∨ b = ')') (hblank : l.kind ≠ .blank)
    (hcomment : l.kind = .comment → b = '\n') : l.ApartFrom b := by
  intro kind more hadmits
  obtain ⟨htext, hkind⟩ := admits_before hadmits h.alone.ne_nil hb
  obtain rfl := h.alone.kind_eq htext
  -- it was a run of blanks or a comment before, and so is the lexeme
  rcases hkind with hkind | ⟨hkind, hne⟩
  · exact hblank hkind
  · exact hne (hcomment hkind)

/-- A blank or a closing parenthesis stands apart from a lexeme that makes a token. -/
theorem apartFrom_of_token (h : l.Heads text) (hk : l.tokenKind? = some k)
    (hb : isBlank b ∨ b = ')') : l.ApartFrom b := by
  refine h.apartFrom hb (fun hblank => ?_) (fun hcomment => ?_)
  · rw [tokenKind?, hblank] at hk
    cases hk
  · rw [tokenKind?, hcomment] at hk
    cases hk

/-- No class admits a longer front than the first lexeme. -/
theorem length_le (h : l.Heads text) (hfront : front <+: text) (hadmits : kind.Admits front) :
    front.length ≤ l.text.length := by
  cases h with
  | longest h =>
    rcases h.others kind front hfront hadmits with hlt | ⟨-, heq⟩
    · exact Nat.le_of_lt hlt
    · exact Nat.le_of_eq (congrArg List.length heq)
  | stray hnone => exact absurd hadmits (hnone kind front hfront)

variable {rest rest' : List Char}

/-- A lexeme depends on one character: what is behind it may give way to a
text that begins alike, or with a character apart from the lexeme. -/
theorem congr (h : l.Heads (l.text ++ rest))
    (hrest : ∀ c ∈ rest'.head?, l.ApartFrom c ∨ rest.head? = some c) :
    l.Heads (l.text ++ rest') := by
  apply h.of_fronts (List.prefix_append _ _)
  rintro kind front ⟨tail, htail⟩ hadmits
  -- the front ends within the lexeme, or goes on behind it
  rcases List.append_eq_append_iff.mp htail with ⟨ys, hys, -⟩ | ⟨ys, rfl, hys⟩
  · rw [hys, List.append_assoc]
    exact List.prefix_append front _
  rcases ys with - | ⟨c, ys⟩
  · rw [List.append_nil]
    exact List.prefix_append l.text rest
  -- the front goes on behind the lexeme
  · rcases hrest c (hys ▸ rfl) with hapart | hhead
    · exact absurd hadmits (hapart kind ys)
    · obtain ⟨more, rfl⟩ := List.head?_eq_some_iff.mp hhead
      -- then the lexeme with one character more was admitted before, which is too long
      have hshort : l.text ++ [c] <+: l.text ++ c :: more := by
        rw [List.append_cons l.text c more]
        exact List.prefix_append _ more
      have hle := h.length_le hshort (admits_upTo hadmits h.alone.ne_nil)
      rw [List.length_append] at hle
      exact absurd hle (Nat.not_succ_le_self _)

end Heads

end Lexeme

/-! ### Scanning -/

/-- What a lexeme makes: a token of some kind, or nothing. -/
inductive Lexeme.Makes : Lexeme → Option Kind → Prop
  | keyword {k spelling} : k ∈ Kind.keywords → k.spelling? = some spelling →
      Makes ⟨.word, spelling.toList⟩ (some k)
  | name {cs} : (∀ k ∈ Kind.keywords, k.spelling? ≠ some (String.ofList cs)) →
      Makes ⟨.word, cs⟩ (some .identifier)
  | number {cs} : Makes ⟨.digits, cs⟩ (some .number)
  | blank {cs} : Makes ⟨.blank, cs⟩ none
  | comment {cs} : Makes ⟨.comment, cs⟩ none
  | mark {k cs} : Makes ⟨.mark k, cs⟩ (some k)
  | stray {cs} : Makes ⟨.stray, cs⟩ (some .illegal)

theorem Lexeme.makes_tokenKind? (l : Lexeme) : l.Makes l.tokenKind? := by
  obtain ⟨kind, cs⟩ := l
  cases kind with
  | word =>
    rw [tokenKind?]
    -- a word that is no keyword is a name
    rcases hk : Kind.keyword? (String.ofList cs) with - | k
    · refine .name fun k hmem hs => ?_
      rw [Kind.keyword?_eq_some_iff.mpr ⟨hmem, hs⟩] at hk
      cases hk
    · obtain ⟨hmem, hs⟩ := Kind.keyword?_eq_some_iff.mp hk
      have hmakes := Makes.keyword hmem hs
      rwa [String.toList_ofList] at hmakes
  | digits => exact .number
  | blank => exact .blank
  | comment => exact .comment
  | mark k => exact .mark
  | stray => exact .stray

/-- An illegal token is made of a stray character, and of nothing else. -/
theorem Lexeme.Heads.makes_illegal_iff {made : Option Kind} (h : l.Heads text)
    (hmade : l.Makes made) : made = some .illegal ↔ NoneAdmits text := by
  cases h with
  | longest h =>
    have hadmits := h.admits
    refine ⟨?_, fun hnone => absurd hadmits (hnone _ _ h.front)⟩
    rintro rfl
    -- no class but the strays makes an illegal token
    cases hmade with
    | keyword hk => exact absurd hk (by decide)
    | mark => exact absurd hadmits.mem_marks (by decide)
    | stray => cases hadmits
  | stray hnone =>
    cases hmade
    exact ⟨fun _ => hnone, fun _ => rfl⟩

namespace Scanner

variable {s : Scanner}

/-- The scanner takes the lexeme from the text ahead of it, and gives the token
that is made of it; if it makes none, the scanner goes on behind it. -/
structure Takes (s : Scanner) (l : Lexeme) (made : Option Kind) : Prop where
  makes : l.Makes made
  behind : ∃ rest, dropBytes? s.offset s.source.toList = some (l.text ++ rest) ∧
    dropBytes? (s.skip l.size).offset s.source.toList = some rest
  token : ∀ k, made = some k →
    s.next? = some (⟨k, String.ofList l.text, s.spanAhead l.size⟩, s.skip l.size)
  silent : made = none → s.next? = (s.skip l.size).next?

theorem takes_first (htext : dropBytes? s.offset s.source.toList = some (x :: xs))
    (hle : s.offset ≤ maxOffset) :
    s.Takes (Lexeme.first x xs) (Lexeme.first x xs).tokenKind? := by
  obtain ⟨file, source, offset⟩ := s
  have hc : Cursor.Within ⟨file, offset, x :: xs⟩ source := htext
  -- the scanner finds the same text behind the lexeme as the cursor does
  have hbehind := hc.past rfl
  obtain ⟨c, ys, rest, rfl, hl⟩ := exists_first x xs
  rw [hl, ← List.cons_append, Cursor.past_lexeme] at hbehind
  rw [hl]
  refine ⟨Lexeme.makes_tokenKind? _, ⟨rest, htext, hbehind⟩, fun k hk => ?_, fun hk => ?_⟩
  · have hnext : Cursor.next ⟨file, offset, x :: (ys ++ rest)⟩ = _ :=
      Cursor.next_of_token hle hl hk
    refine hc.next?.trans ?_
    rw [hnext]
    rfl
  · have hnext : Cursor.next ⟨file, offset, x :: (ys ++ rest)⟩ = _ :=
      Cursor.next_of_no_token hle hl hk
    refine hc.next?.trans ?_
    rw [hnext]
    exact hbehind.next?.symm

/-- **The first match is the longest match.**  Wherever a scanner stands before
a character, at an offset that can be recorded, the first class in order that
admits a front of the text, with the longest front that it admits, is the
longest front that any class admits.  The scanner takes this lexeme and makes
of it what belongs to its class, or it takes one stray character: it does so,
and gives an illegal token, exactly where no class admits a front. -/
theorem exists_takes (s : Scanner) (text : List Char)
    (htext : dropBytes? s.offset s.source.toList = some text) (hne : text ≠ [])
    (hle : s.offset ≤ maxOffset) :
    (∀ l : Lexeme, l.FirstMatch text ↔ l.Longest text) ∧
      ∃ l made, s.Takes l made ∧ l.Heads text ∧
        (made = some .illegal ↔ Lexeme.NoneAdmits text) := by
  obtain ⟨x, xs, rfl⟩ := List.exists_cons_of_ne_nil hne
  refine ⟨fun l => Lexeme.firstMatch_iff_longest, _, _, takes_first htext hle,
    Lexeme.heads_first x xs, ?_⟩
  exact (Lexeme.heads_first x xs).makes_illegal_iff (Lexeme.makes_tokenKind? _)

/-- Two marks that could be one, with a stray character behind them. -/
theorem exists_takes_example :
    let s : Scanner := ⟨"shell", "x==é", 1⟩
    let text := ['=', '=', 'é']
    dropBytes? s.offset s.source.toList = some text ∧ text ≠ [] ∧ s.offset ≤ maxOffset ∧
      (∀ l : Lexeme, l.FirstMatch text ↔ l.Longest text) ∧
      ∃ l made, s.Takes l made ∧ l.Heads text ∧
        (made = some .illegal ↔ Lexeme.NoneAdmits text) ∧ l = ⟨.mark .equals, ['=', '=']⟩ := by
  intro s text
  have htext : dropBytes? s.offset s.source.toList = some text := by decide +kernel
  obtain ⟨hfirst, l, made, htakes, hheads, hillegal⟩ :=
    exists_takes s text htext (List.cons_ne_nil _ _) (by decide)
  refine ⟨htext, List.cons_ne_nil _ _, by decide, hfirst, l, made, htakes, hheads, hillegal, ?_⟩
  exact (Lexeme.heads_iff.mp hheads).symm

end Scanner

end LetFn
