/-
LetFn/CommandLine/Run.lean

A run of the command line, as a function: from the arguments and the content
of the file they name to what is printed and the exit code.

A source without errors is printed in its canonical form.  Otherwise its
errors are reported, and the exit code is 1, as it is for a file that cannot
be read.  Wrong arguments have the exit code 2.
-/
import LetFn.CommandLine.Options
import LetFn.Diagnostic.Excerpt
import LetFn.Tree.Render

namespace LetFn.CommandLine

/-- Why a file gives no source. -/
inductive ReadFailure where
  /-- There is no such file. -/
  | missing
  /-- Its bytes are not the UTF-8 form of a text. -/
  | notText
  /-- The system has another reason. -/
  | other (reason : String)

/-- Why a file gives no source, in words. -/
def ReadFailure.reason : ReadFailure → String
  | missing => "No such file or directory (os error 2)"
  | notText => "stream did not contain valid UTF-8"
  | other reason => reason

/-- The source that the bytes of a file hold. -/
def sourceOf (bytes : ByteArray) : Except ReadFailure String :=
  match String.fromUTF8? bytes with
  | some source => .ok source
  | none => .error .notText

/-- The name by which positions speak of a file: the last part of its path,
if that is a name. -/
def fileName (path : String) : String :=
  match ((path.splitOn "/").filter fun part => part ≠ "" ∧ part ≠ ".").getLast? with
  | none | some ".." => defaultFile
  | some name => name

/-- What a run leaves behind. -/
structure Report where
  /-- The exit code. -/
  code : Nat
  /-- The standard output. -/
  out : String
  /-- The standard error. -/
  err : String
  deriving DecidableEq, Repr

/-- The text of some lines, each with its newline. -/
def unlines (lines : List String) : String := String.join (lines.map (· ++ "\n"))

/-- How the command line is used. -/
def usage : String := "usage: letfn [--tokens] [--log-level LEVEL] [--] PATH"

/-- The run for wrong arguments. -/
def refused : Report := ⟨2, "", unlines [usage]⟩

/-- The run for given options and the content of their file; `time` says how
long the parse took. -/
def respond (time : String) (options : Options) (content : Except ReadFailure String) : Report :=
  match content with
  | .error failure =>
    ⟨1, "", unlines (Log.lines options.level [.unreadable options.path failure.reason])⟩
  | .ok source =>
    let file := fileName options.path
    let stream := TokenStream.ofSource file source
    let o := readProgram stream
    let errors := errorsOf o.events
    let listing := if options.tokens then stream.toList.map Token.display else []
    let scanned :=
      if options.tokens then
        stream.pending.filterMap Log.Record.ofToken? ++ [.tokenized stream.toList.length file]
      else []
    let log :=
      Log.lines options.level
        (scanned ++ Log.transcript stream o.events ++
          [.parsed o.value.statements.length errors.length, .elapsed time])
    if errors.isEmpty then ⟨0, unlines (listing ++ [o.value.render]), unlines log⟩
    else
      let count := Text.decimal errors.length ++ " error(s) found"
      ⟨1, unlines listing,
        unlines (log ++ errors.flatMap (Diagnostic.report options.path source) ++ [count])⟩

/-- The run for given arguments, where `read` gives the content of a file. -/
def run (read : String → Except ReadFailure String) (time : String) (arguments : List String) :
    Report :=
  match Options.ofArguments? arguments with
  | none => refused
  | some options => respond time options (read options.path)

end LetFn.CommandLine
