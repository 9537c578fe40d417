/-
LetFn/Diagnostic/Excerpt.lean

Diagnostics as a reader sees them: a headline, the path of the source, and
an excerpt that shows the line in question with a caret below it.

    Error: NoPrefixParseFn: no prefix parse function for Illegal found (`@` is not a valid character)
    -> some/source
       |
    20 | let a = @;
       | --------^

The excerpt leaves out the spaces and tabs at the start of the line and any
blanks at its end.  The caret has as many dashes before it as there are
bytes between the first character shown and the place of the diagnostic.
-/
import LetFn.Diagnostic
import LetFn.Text.Blank
import LetFn.Text.Line

namespace LetFn

/-- A text filled up at its left to some width.  The width is taken to be
unlimited; newer formatters cap the widths they are given at 65535. -/
def alignRight (filler : Char) (width : Nat) (text : String) : String :=
  String.ofList (List.replicate (width - text.length) filler) ++ text

/-- Is `c` left out at the start of a line? -/
def isIndent (c : Char) : Bool := c == ' ' || c == '\t'

/-- The lines of an excerpt of the source that shows a place in it. -/
def excerpt (place : Text.Line) : List String :=
  let number := Text.decimal place.number
  let bar := alignRight ' ' (number.length + 2) "|"
  let indent := (place.text.takeWhile isIndent).length
  let shown := Text.trimEnd (place.text.dropWhile isIndent)
  [bar,
    number ++ " | " ++ String.ofList shown,
    bar ++ " " ++ alignRight '-' (place.column - indent + 1) "^"]

namespace Diagnostic

/-- The name of the cause, what is wrong, and the tip if there is one. -/
def headline (d : Diagnostic) : String :=
  let tip :=
    match d.cause.tip? with
    | some tip => " (" ++ tip ++ ")"
    | none => ""
  "Error: " ++ d.cause.name ++ ": " ++ d.message ++ tip

/-- The lines in which a diagnostic of a source is shown. -/
def report (path source : String) (d : Diagnostic) : List String :=
  let place :=
    match Text.lineAt? source.toList d.position.offset with
    | some place => excerpt place
    | none => []
  d.headline :: ("-> " ++ path) :: place

end Diagnostic

end LetFn
