/-
LetFn/Log.lean

The log of a run: what happened, at which level, and how it is written.

The log of a parse tells its events: tokens enter it when they come into
view, the first two before all else.
-/
import LetFn.Parser.Program
import LetFn.Text.Control
import LetFn.Text.Numeral

namespace LetFn.Log

/-! ### Levels -/

/-- How much a record matters. -/
inductive Level where
  | trace
  | debug
  | info
  | warn
  | error
  deriving DecidableEq, Repr

namespace Level

/-- All levels, from the least to the most important. -/
def all : List Level := [trace, debug, info, warn, error]

/-- The place of a level in the order. -/
def rank : Level → Nat
  | trace => 0
  | debug => 1
  | info => 2
  | warn => 3
  | error => 4

/-- How a level is named on the command line. -/
def name : Level → String
  | trace => "trace"
  | debug => "debug"
  | info => "info"
  | warn => "warn"
  | error => "error"

/-- How a level is named in the log, in five columns. -/
def column : Level → String
  | trace => "TRACE"
  | debug => "DEBUG"
  | info => " INFO"
  | warn => " WARN"
  | error => "ERROR"

/-- The level with the given name; the case of ASCII letters counts unless
it is ignored. -/
def ofName? (ignoreCase : Bool) (word : String) : Option Level :=
  all.find? fun level => level.name = if ignoreCase then word.map Char.toLower else word

end Level

/-! ### Records -/

/-- What a log can hold. -/
inductive Record where
  /-- A token came into view. -/
  | token (token : Token)
  /-- A character came into view that belongs to no token. -/
  | illegal (token : Token)
  /-- A statement is about to be read. -/
  | statement (first : Token)
  /-- A statement could not be read. -/
  | failure (error : Diagnostic)
  /-- A source was scanned as a whole. -/
  | tokenized (count : Nat) (file : String)
  /-- A program was read to its end. -/
  | parsed (statements errors : Nat)
  /-- How long that took. -/
  | elapsed (time : String)
  /-- A source could not be read from its file. -/
  | unreadable (path reason : String)

namespace Record

/-- The record of a token that comes into view; `eof` leaves none. -/
def ofToken? (t : Token) : Option Record :=
  match t.kind with
  | .eof => none
  | .illegal => some (.illegal t)
  | _ => some (.token t)

/-- The record of an event in a parse, if it leaves one. -/
def ofEvent? : Event → Option Record
  | .token t => ofToken? t
  | .statement first => some (.statement first)
  | .failure error => some (.failure error)

/-- How much a record matters. -/
def level : Record → Level
  | token _ | statement _ | failure _ => .trace
  | illegal _ | tokenized .. | parsed .. => .debug
  | elapsed _ => .info
  | unreadable .. => .error

/-- What happened, in words. -/
def message : Record → String
  | token _ => "token"
  | illegal _ => "illegal character"
  | statement _ => "statement"
  | failure _ => "parse error"
  | tokenized .. => "tokenized source"
  | parsed .. => "parsed program"
  | elapsed time => "Parsed in " ++ time
  | unreadable path reason => "Failed to read " ++ path ++ ": " ++ reason

/-- The details of what happened, each under its name. -/
def details : Record → List (String × String)
  | token t => [("kind", t.kind.name), ("value", t.text)]
  | illegal t => [("value", t.text), ("offset", Text.decimal t.span.start.offset)]
  | statement first =>
    [("kind", first.kind.name), ("offset", Text.decimal first.span.start.offset)]
  | failure error =>
    [("error", error.message), ("offset", Text.decimal error.position.offset)]
  | tokenized count file => [("count", Text.decimal count), ("file", file)]
  | parsed statements errors =>
    [("statements", Text.decimal statements), ("errors", Text.decimal errors)]
  | elapsed _ | unreadable .. => []

/-- The line that a record makes.  The message is spelled out, so that the
path in it cannot command the terminal; the details stay as they are. -/
def line (r : Record) : String :=
  r.level.column ++ " " ++ Text.spelledOut r.message ++
    String.join (r.details.map fun (name, value) => " " ++ name ++ "=" ++ value)

end Record

/-- The records of a parse of the given stream with the given events. -/
def transcript (s : TokenStream) (events : List Event) : List Record :=
  (.token s.current :: .token s.peek :: events).filterMap Record.ofEvent?

/-- The lines of the records that matter as much as the given level or more. -/
def lines (level : Level) (records : List Record) : List String :=
  (records.filter fun r => level.rank ≤ r.level.rank).map Record.line

end LetFn.Log
