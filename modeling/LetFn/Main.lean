/-
LetFn/Main.lean

The program: reads the file that the arguments name, and prints the report
of the run.
-/
import LetFn.CommandLine.Run

namespace LetFn.CommandLine

/-- The content of a file. -/
def readSource (path : String) : IO (Except ReadFailure String) := do
  try
    return sourceOf (← IO.FS.readBinFile path)
  catch
    | .noFileOrDirectory .. => return .error .missing
    | failure => return .error (.other (toString failure))

/-- How many microseconds it takes to parse a source. -/
def parseTime (source : String) : IO Nat := do
  let start ← IO.monoNanosNow
  let _ ← IO.lazyPure fun _ => (parseSource defaultFile source).errors.length
  return ((← IO.monoNanosNow) - start) / 1000

/-- The report of the run for given arguments. -/
def reportOf (arguments : List String) : IO Report := do
  match Options.ofArguments? arguments with
  | none => return refused
  | some options =>
    let content ← readSource options.path
    let time ←
      match content with
      | .ok source => parseTime source
      | .error _ => pure 0
    return respond (toString time ++ "µs") options content

end LetFn.CommandLine

def main (arguments : List String) : IO UInt32 := do
  let report ← LetFn.CommandLine.reportOf arguments
  (← IO.getStdout).putStr report.out
  (← IO.getStderr).putStr report.err
  return report.code.toUInt32
