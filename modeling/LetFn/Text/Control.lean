/-
LetFn/Text/Control.lean

Control characters that a terminal takes for commands: of the ASCII ones the
bell, the backspace, the form feed, the escape and the delete, and beyond
them all from U+0080 to U+009F.  A message for a terminal may hold words from
elsewhere, such as a path; there these characters are spelled out.  Line
breaks and tabs do no harm and stay.

Main statement: a text that is spelled out holds no commands
(`isCommand_eq_false_of_mem_spelledOut`).
-/
namespace LetFn.Text

/-- Does a terminal take `c` for a command? -/
def isCommand (c : Char) : Bool :=
  c == '\x07' || c == '\x08' || c == '\x0c' || c == '\x1b' || c == '\x7f' ||
    ('\u0080' ≤ c && c ≤ '\u009f')

/-- A command is written with its code point in hexadecimal: `\x1b` with two
digits if it is ASCII, `\u{9b}` with braces if it is not. -/
def spelledChar (c : Char) : List Char :=
  let digits := Nat.toDigits 16 c.toNat
  if !isCommand c then [c]
  else if c.toNat < 0x80 then ['\\', 'x'] ++ digits.leftpad 2 '0'
  else ['\\', 'u', '{'] ++ digits ++ ['}']

/-- The text with its commands spelled out. -/
def spelledOut (text : String) : String := String.ofList (text.toList.flatMap spelledChar)

/-- All commands lie below U+00A0. -/
theorem toNat_lt_of_isCommand {c : Char} (h : isCommand c) : c.toNat < 0xa0 := by
  simp only [isCommand, Bool.or_eq_true, Bool.and_eq_true, beq_iff_eq, decide_eq_true_eq] at h
  obtain ((((rfl | rfl) | rfl) | rfl) | rfl) | ⟨-, h⟩ := h
  case inr =>
    have hle : c.toNat ≤ '\u009f'.toNat := h
    have hval : '\u009f'.toNat = 0x9f := rfl
    omega
  all_goals decide

/-- Nothing in the spelling of a character is a command. -/
theorem isCommand_eq_false_of_mem_spelledChar {c d : Char} (h : d ∈ spelledChar c) :
    isCommand d = false := by
  cases hc : isCommand c with
  | false =>
    have hd : d = c := by simpa [spelledChar, hc] using h
    rw [hd, hc]
  | true =>
    -- There are few commands: their spellings are looked through one by one.
    have key : (List.range 0xa0).all fun n =>
        !isCommand (Char.ofNat n) || (spelledChar (Char.ofNat n)).all fun e => !isCommand e := by
      decide +kernel
    have hmem := List.mem_range.mpr (toNat_lt_of_isCommand hc)
    have hall := List.all_eq_true.mp key c.toNat hmem
    rw [Char.ofNat_toNat, hc, Bool.not_true, Bool.false_or, List.all_eq_true] at hall
    simpa using hall d h

theorem isCommand_eq_false_of_mem_spelledOut {text : String} {d : Char}
    (h : d ∈ (spelledOut text).toList) : isCommand d = false := by
  rw [spelledOut, String.toList_ofList, List.mem_flatMap] at h
  obtain ⟨c, -, hd⟩ := h
  exact isCommand_eq_false_of_mem_spelledChar hd

end LetFn.Text
