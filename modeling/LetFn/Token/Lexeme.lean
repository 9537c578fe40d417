/-
LetFn/Token/Lexeme.lean

Lexemes: the pieces into which a source text falls.  A lexeme is a word, a
run of digits, a run of blanks, a comment, a mark such as an operator or a
bracket, or else one stray character.

The first character alone decides between these, with two exceptions: a `/`
begins a comment if another one follows, and `=` and `!` make a mark of two
characters if a `=` follows.  Runs extend as far as they can.

Main statement: the first lexeme of a text is a nonempty front of it
(`text_first_isPrefix`, `text_first_ne_nil`), so that lexeme after lexeme
every text is used up.
-/
import LetFn.Text.Blank
import LetFn.Text.Bytes
import LetFn.Token

namespace LetFn

open LetFn.Text (isBlank byteCount)

/-- What a lexeme is. -/
inductive LexemeClass where
  | word
  | digits
  | blank
  | comment
  | mark (kind : Kind)
  | stray
  deriving DecidableEq, Repr

/-- A piece of a source text. -/
structure Lexeme where
  /-- What it is. -/
  kind : LexemeClass
  /-- Its characters. -/
  text : List Char
  deriving DecidableEq, Repr

/-- Can a word begin with `c`? -/
def isWordStart (c : Char) : Bool := c.isAlpha || c == '_'

/-- Can a word go on with `c`? -/
def isWordPart (c : Char) : Bool := c.isAlphanum || c == '_'

/-- The mark at the head of a text, with its characters.  A mark of two
characters comes before the mark that is its first character. -/
def mark? : List Char → Option (Kind × List Char)
  | '{' :: _ => some (.openCurly, ['{'])
  | '}' :: _ => some (.closeCurly, ['}'])
  | '(' :: _ => some (.openParen, ['('])
  | ')' :: _ => some (.closeParen, [')'])
  | '=' :: '=' :: _ => some (.equals, ['=', '='])
  | '!' :: '=' :: _ => some (.notEquals, ['!', '='])
  | '!' :: _ => some (.not, ['!'])
  | '=' :: _ => some (.assignment, ['='])
  | '<' :: _ => some (.less, ['<'])
  | '>' :: _ => some (.greater, ['>'])
  | ';' :: _ => some (.semicolon, [';'])
  | ',' :: _ => some (.comma, [','])
  | '+' :: _ => some (.plus, ['+'])
  | '-' :: _ => some (.dash, ['-'])
  | '/' :: _ => some (.slash, ['/'])
  | '*' :: _ => some (.star, ['*'])
  | _ => none

/-- A mark is a nonempty front of the text, and it is spelled as its kind says. -/
theorem mark?_eq_some {text spelling : List Char} {k : Kind} (h : mark? text = some (k, spelling)) :
    spelling <+: text ∧ spelling ≠ [] ∧ k.spelling? = some (String.ofList spelling) := by
  unfold mark? at h
  split at h
  case h_17 => simp at h
  all_goals
    obtain ⟨rfl, rfl⟩ := by simpa using h
    refine ⟨by simp, by simp, by decide⟩

namespace Lexeme

/-- The first lexeme of the text that begins with `c` and goes on with `text`. -/
def first (c : Char) (text : List Char) : Lexeme :=
  if isWordStart c then ⟨.word, c :: text.takeWhile isWordPart⟩
  else if c.isDigit then ⟨.digits, c :: text.takeWhile Char.isDigit⟩
  else if isBlank c then ⟨.blank, c :: text.takeWhile isBlank⟩
  -- before the marks, because `/` is one of them
  else if c == '/' && text.head? == some '/' then ⟨.comment, c :: text.takeWhile (· != '\n')⟩
  else
    match mark? (c :: text) with
    | some (kind, spelling) => ⟨.mark kind, spelling⟩
    | none => ⟨.stray, [c]⟩

theorem text_first_isPrefix (c : Char) (text : List Char) :
    (first c text).text <+: c :: text := by
  have run (p : Char → Bool) : c :: text.takeWhile p <+: c :: text :=
    List.cons_prefix_cons.mpr ⟨rfl, List.takeWhile_prefix p⟩
  unfold first
  split
  · exact run isWordPart
  split
  · exact run Char.isDigit
  split
  · exact run isBlank
  split
  · exact run (· != '\n')
  split
  · next h => exact (mark?_eq_some h).1
  · exact List.cons_prefix_cons.mpr ⟨rfl, List.nil_prefix⟩

theorem text_first_ne_nil (c : Char) (text : List Char) : (first c text).text ≠ [] := by
  unfold first
  split
  · exact List.cons_ne_nil _ _
  split
  · exact List.cons_ne_nil _ _
  split
  · exact List.cons_ne_nil _ _
  split
  · exact List.cons_ne_nil _ _
  split
  · next h => exact (mark?_eq_some h).2.1
  · exact List.cons_ne_nil _ _

/-- The kind of the token that a lexeme makes; blanks and comments make none. -/
def tokenKind? (l : Lexeme) : Option Kind :=
  match l.kind with
  | .word => some ((Kind.keyword? (String.ofList l.text)).getD .identifier)
  | .digits => some .number
  | .blank | .comment => none
  | .mark kind => some kind
  | .stray => some .illegal

/-- No lexeme of a text makes a token for its end. -/
theorem tokenKind?_first_ne_eof (c : Char) (text : List Char) :
    (first c text).tokenKind? ≠ some .eof := by
  unfold first
  split
  · exact fun h => Kind.keyword?_getD_ne_eof _ (Option.some.inj h)
  split
  · simp [tokenKind?]
  split
  · simp [tokenKind?]
  split
  · simp [tokenKind?]
  split
  · next h =>
    -- a mark is spelled, and the end is not
    have hs := (mark?_eq_some h).2.2
    intro hk
    simp only [tokenKind?, Option.some.injEq] at hk
    simp [hk, Kind.spelling?] at hs
  · simp [tokenKind?]

/-- How many bytes a lexeme takes. -/
def size (l : Lexeme) : Nat := byteCount l.text

end Lexeme

end LetFn
