/-
LetFn/Text/Quoted.lean

Quoted texts in messages: between double quotes, with a backslash before a
double quote and a backslash, short escapes for the newline, the carriage
return, the tab and NUL, and the code point in hexadecimal for every other
character that a message cannot show.
-/
import LetFn.Text.Printable

namespace LetFn.Text

/-- How a character is written between quotes. -/
def quotedChar (c : Char) : List Char :=
  match c with
  | '"' => ['\\', '"']
  | '\\' => ['\\', '\\']
  | '\n' => ['\\', 'n']
  | '\r' => ['\\', 'r']
  | '\t' => ['\\', 't']
  | '\x00' => ['\\', '0']
  | c =>
    if isPrintable c then [c]
    else ['\\', 'u', '{'] ++ Nat.toDigits 16 c.toNat ++ ['}']

/-- The text between double quotes. -/
def quoted (text : String) : String :=
  String.ofList (['"'] ++ text.toList.flatMap quotedChar ++ ['"'])

end LetFn.Text
