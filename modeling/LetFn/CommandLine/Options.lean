/-
LetFn/CommandLine/Options.lean

The arguments of the command line: one path, and options before or behind
it.

    [--tokens] [--log-level LEVEL] [--] PATH

The level may also follow an equals sign, as in `--log-level=LEVEL`.  No
option is given twice.  Behind `--` nothing is an option; before it,
everything with a dash in front is one, but for a single dash.
-/
import LetFn.Log

namespace LetFn.CommandLine

/-- What the command line asks for. -/
structure Options where
  /-- The file that holds the source. -/
  path : String
  /-- Are the tokens listed as well? -/
  tokens : Bool
  /-- The least level of records that are shown. -/
  level : Log.Level
  deriving DecidableEq, Repr

/-- What some arguments have asked for. -/
structure Request where
  path? : Option String := none
  tokens : Bool := false
  level? : Option Log.Level := none

namespace Request

/-- Takes an argument as the path, of which there is one, and not an empty one. -/
def withPath (r : Request) (path : String) : Option Request :=
  if r.path?.isNone ∧ path ≠ "" then some { r with path? := some path } else none

/-- Asks for the tokens, once. -/
def withTokens (r : Request) : Option Request :=
  if r.tokens then none else some { r with tokens := true }

/-- Asks for the level of the given name, once. -/
def withLevel (r : Request) (name : String) : Option Request :=
  if r.level?.isNone then
    (Log.Level.ofName? false name).map fun level => { r with level? := some level }
  else none

end Request

/-- What follows a front of an argument. -/
def behind? (front argument : String) : Option String :=
  (front.toList.isPrefixOf? argument.toList).map String.ofList

/-- Reads arguments one after the other; nothing if one of them is wrong. -/
def readArguments (r : Request) : List String → Option Request
  | [] => some r
  | "--" :: later => later.foldlM Request.withPath r
  | "--tokens" :: later => do readArguments (← r.withTokens) later
  | ["--log-level"] => none
  | "--log-level" :: name :: later => do readArguments (← r.withLevel name) later
  | argument :: later => do
    match behind? "--log-level=" argument with
    | some name => readArguments (← r.withLevel name) later
    | none =>
      if argument ≠ "-" ∧ (behind? "-" argument).isSome then none
      else readArguments (← r.withPath argument) later

/-- What the arguments ask for, if they are right.  Warnings and errors are
shown unless a level is given. -/
def Options.ofArguments? (arguments : List String) : Option Options := do
  let r ← readArguments {} arguments
  let path ← r.path?
  return ⟨path, r.tokens, r.level?.getD .warn⟩

end LetFn.CommandLine
