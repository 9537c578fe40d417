import LetFn.CommandLine.Options
import LetFn.CommandLine.Run
import LetFn.Diagnostic
import LetFn.Diagnostic.Excerpt
import LetFn.Grammar
import LetFn.Log
import LetFn.Main
import LetFn.Parser.Basic
import LetFn.Parser.Expression
import LetFn.Parser.Nesting
import LetFn.Parser.Outcome
import LetFn.Parser.Program
import LetFn.Parser.Recovery
import LetFn.Parser.Statement
import LetFn.Position
import LetFn.Proofs.Grammar
import LetFn.Proofs.Reading
import LetFn.Text.Blank
import LetFn.Text.Bytes
import LetFn.Text.Control
import LetFn.Text.Line
import LetFn.Text.Numeral
import LetFn.Text.Printable
import LetFn.Text.Quoted
import LetFn.Token
import LetFn.Token.Lexeme
import LetFn.Token.Scanner
import LetFn.Token.Stream
import LetFn.Tree
import LetFn.Tree.Equality
import LetFn.Tree.Map
import LetFn.Tree.Render
import LetFn.Proofs.Grammar.Soundness
import LetFn.Proofs.Passing
import LetFn.Proofs.Grammar.Completeness
import LetFn.Proofs.Grammar.Acceptance
import LetFn.Proofs.Canonical
import LetFn.Proofs.Scanning
import LetFn.Proofs.Spelling
import LetFn.Proofs.WellFormed
import LetFn.Proofs.RoundTrip
import LetFn.Proofs.Braces
import LetFn.Proofs.Braces.Tracking
import LetFn.Proofs.Braces.Blocks
import LetFn.Proofs.Boundaries
import LetFn.Proofs.Boundaries.Steady
import LetFn.Proofs.Boundaries.Containment
import LetFn.Proofs.Wording
import LetFn.Reader.Basic
import LetFn.Reader.Handlers
import LetFn.Token.Source
import LetFn.Proofs.Reader
import LetFn.Proofs.Reader.Levels
import LetFn.Proofs.Reader.History
import LetFn.Proofs.Reader.Sources
import LetFn.Proofs.Tiling
import LetFn.Proofs.Diagnosis
import LetFn.Proofs.Layout
import LetFn.Proofs.Relocation
import LetFn.Tree.Nodes
import LetFn.Proofs.Provenance
import LetFn.Proofs.Chains
import LetFn.Proofs.UniqueReading
import LetFn.Reader.Course
import LetFn.Proofs.Reader.Ending
import LetFn.Proofs.Diagnosis.Order
import LetFn.Proofs.Semicolons
import LetFn.Proofs.Spans
import LetFn.Proofs.Brackets
import LetFn.Proofs.Tiling.Cutting
import LetFn.Proofs.Quotation
import LetFn.Proofs.LongestMatch
import LetFn.Proofs.Lines
import LetFn.Proofs.Respelling
import LetFn.Proofs.Excerpts
import LetFn.Proofs.Places
import LetFn.Proofs.Reader.Skipping
import LetFn.Proofs.Numerals
