/-
LetFn/Token.lean

Tokens: the kinds there are, how each kind is named and spelled, and which
words are keywords.

A token keeps the text it was read from.  For kinds with one spelling the
text adds nothing, and the display of a token leaves it out; names, numbers
and illegal characters are displayed with it.
-/
import LetFn.Position

namespace LetFn

/-- What a token is. -/
inductive Kind where
  | eof
  | illegal
  | number
  | identifier
  | openCurly
  | closeCurly
  | openParen
  | closeParen
  | assignment
  | equals
  | not
  | notEquals
  | less
  | greater
  | semicolon
  | comma
  | plus
  | dash
  | slash
  | star
  | kwLet
  | kwFn
  | kwReturn
  | kwIf
  | kwElse
  | kwTrue
  | kwFalse
  deriving DecidableEq, Repr

namespace Kind

/-- The name of a kind in messages. -/
def name : Kind → String
  | eof => "EOF"
  | illegal => "Illegal"
  | number => "Number"
  | identifier => "Identifier"
  | openCurly => "OpenCurly"
  | closeCurly => "CloseCurly"
  | openParen => "OpenParen"
  | closeParen => "CloseParen"
  | assignment => "Assignment"
  | equals => "Equals"
  | not => "Not"
  | notEquals => "NotEquals"
  | less => "Less"
  | greater => "Greater"
  | semicolon => "Semicolon"
  | comma => "Comma"
  | plus => "Plus"
  | dash => "Dash"
  | slash => "Slash"
  | star => "Star"
  | kwLet => "Let"
  | kwFn => "Fn"
  | kwReturn => "Return"
  | kwIf => "If"
  | kwElse => "Else"
  | kwTrue => "True"
  | kwFalse => "False"

/-- The spelling of a kind whose tokens are all spelled alike.  A brace that
stands alone in a string is written by its code point, `\x7b` or `\x7d`. -/
def spelling? : Kind → Option String
  | eof | illegal | number | identifier => none
  | openCurly => some "\x7b"
  | closeCurly => some "\x7d"
  | openParen => some "("
  | closeParen => some ")"
  | assignment => some "="
  | equals => some "=="
  | not => some "!"
  | notEquals => some "!="
  | less => some "<"
  | greater => some ">"
  | semicolon => some ";"
  | comma => some ","
  | plus => some "+"
  | dash => some "-"
  | slash => some "/"
  | star => some "*"
  | kwLet => some "let"
  | kwFn => some "fn"
  | kwReturn => some "return"
  | kwIf => some "if"
  | kwElse => some "else"
  | kwTrue => some "true"
  | kwFalse => some "false"

/-- Every kind, once. -/
def all : List Kind :=
  [eof, illegal, number, identifier, openCurly, closeCurly, openParen, closeParen, assignment,
    equals, not, notEquals, less, greater, semicolon, comma, plus, dash, slash, star, kwLet, kwFn,
    kwReturn, kwIf, kwElse, kwTrue, kwFalse]

theorem mem_all (k : Kind) : k ∈ all := by
  cases k <;> decide

/-- The kinds that are spelled like names. -/
def keywords : List Kind :=
  [kwLet, kwFn, kwReturn, kwIf, kwElse, kwTrue, kwFalse]

/-- The keyword with the given spelling. -/
def keyword? (word : String) : Option Kind :=
  keywords.find? fun k => k.spelling? == some word

/-- Two kinds with one spelling are the same. -/
theorem spelling?_inj {k l : Kind} {s : String} (hk : k.spelling? = some s)
    (hl : l.spelling? = some s) : k = l := by
  have key : ∀ k ∈ all, ∀ l ∈ all, k.spelling?.isSome → k.spelling? = l.spelling? → k = l := by
    decide
  exact key k (mem_all k) l (mem_all l) (by simp [hk]) (hk.trans hl.symm)

theorem keyword?_eq_some_iff {word : String} {k : Kind} :
    keyword? word = some k ↔ k ∈ keywords ∧ k.spelling? = some word := by
  constructor
  · intro h
    exact ⟨List.mem_of_find?_eq_some h, by simpa using List.find?_some h⟩
  · rintro ⟨hk, hs⟩
    rcases h : keyword? word with - | l
    · have := List.find?_eq_none.mp h k hk
      simp [hs] at this
    · have hl : l.spelling? = some word := by simpa using List.find?_some h
      rw [spelling?_inj hl hs]

/-- A word is no `eof`, be it a keyword or not. -/
theorem keyword?_getD_ne_eof (word : String) : (keyword? word).getD identifier ≠ eof := by
  rcases h : keyword? word with - | k
  · decide
  · have hmem := (keyword?_eq_some_iff.mp h).1
    rintro rfl
    exact absurd hmem (by decide)

end Kind

/-- A token of a source. -/
structure Token where
  /-- What it is. -/
  kind : Kind
  /-- The text it was read from. -/
  text : String
  /-- Where it stands. -/
  span : Span
  deriving DecidableEq, Repr

namespace Token

/-- The token for the end of a source at the given place. -/
def eof (place : Position) : Token := ⟨.eof, "EOF", ⟨place, place⟩⟩

/-- Is the token of one of the given kinds? -/
def isOneOf (t : Token) (kinds : List Kind) : Bool := kinds.contains t.kind

/-- The kind of a token, with its text where that says more. -/
def display (t : Token) : String :=
  if t.isOneOf [.identifier, .number, .illegal] then t.kind.name ++ " (" ++ t.text ++ ")"
  else t.kind.name

end Token

end LetFn
