/-
LetFn/Text/Blank.lean

Blank characters are those with the Unicode property `White_Space`: the
ASCII blanks, and the blanks of other scripts beyond them.  Source text may
hold any of them between two tokens, and an excerpt of a source line loses
those at its end.
-/
namespace LetFn.Text

/-- Does `c` have the property `White_Space`? -/
def isBlank (c : Char) : Bool :=
  ('\t' ≤ c && c ≤ '\r') || c == ' ' || c == '\u0085' || c == '\u00a0' || c == '\u1680' ||
    ('\u2000' ≤ c && c ≤ '\u200a') || c == '\u2028' || c == '\u2029' || c == '\u202f' ||
    c == '\u205f' || c == '\u3000'

/-- The text without the blanks at its end. -/
def trimEnd (text : List Char) : List Char :=
  (text.reverse.dropWhile isBlank).reverse

/-- Every blank that Lean's own ASCII class knows is blank here. -/
theorem isBlank_of_isWhitespace {c : Char} (h : c.isWhitespace) : isBlank c := by
  simp only [Char.isWhitespace, Bool.or_eq_true, decide_eq_true_eq] at h
  rcases h with ((rfl | rfl) | rfl) | rfl <;> decide

end LetFn.Text
