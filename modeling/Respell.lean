import Respell.Text.Blank
import Respell.Text.Escape
import Respell.Text.Fold
import Respell.Text.Utf8
import Respell.Span
import Respell.Decimal.Layout
import Respell.Keyword.Table
import Respell.Token.Lexer
import Respell.Program.Parser
import Respell.Eval
import Respell.Diagnostic.Render
import Respell.Json
import Respell.Sink
import Respell.Keyword.Reader
import Respell.Main
import Respell.Proofs.Scoping.Resolution
import Respell.Proofs.Scoping.Visits
import Respell.Proofs.Scoping.Lexical
import Respell.Proofs.Parsing.Replies
import Respell.Proofs.Parsing.Grammar
import Respell.Proofs.Parsing.Soundness
import Respell.Proofs.Parsing.Completeness
import Respell.Proofs.Parsing.Greedy
import Respell.Proofs.Parsing.Acceptance
import Respell.Proofs.Parsing.RoundTrip
import Respell.Proofs.Parsing.Cap
import Respell.Proofs.Relabelling
import Respell.Proofs.Running.Simulation
import Respell.Proofs.Running.Steps
import Respell.Proofs.Scoping.Discipline
import Respell.Proofs.Scoping.Nesting
import Respell.Proofs.Scoping.Bindings
import Respell.Proofs.Running.Desugaring
import Respell.Proofs.Running.Visibility
import Respell.Proofs.Running.Points
import Respell.Proofs.Running.Raising
import Respell.Proofs.Running.Nonnull
import Respell.Proofs.Lexing.Lexemes
import Respell.Proofs.Lexing.Tiling
import Respell.Proofs.Parsing.Mirroring
import Respell.Proofs.Lexing.Writing
import Respell.Proofs.Running.Renaming
import Respell.Proofs.Respelling
import Respell.Proofs.Nodes
import Respell.Proofs.Parsing.Places
import Respell.Proofs.Parsing.Placement
import Respell.Proofs.Parsing.Composition
import Respell.Proofs.Parsing.Lookahead
import Respell.Proofs.Parsing.Failures
import Respell.Proofs.Parsing.Joining
import Respell.Proofs.Lexing.Slicing
import Respell.Proofs.Lexing.Seams
import Respell.Proofs.Lexing.Faults
import Respell.Proofs.Lexing.Keywords
import Respell.Proofs.Positions
import Respell.Proofs.Rendering.Underlines
import Respell.Proofs.Rendering.Colours
import Respell.Proofs.Spans
import Respell.Proofs.Running.Blame
import Respell.Proofs.ErrorSpans
import Respell.Proofs.Decimal.Rounding
import Respell.Proofs.Decimal.Bits
import Respell.Proofs.Decimal.Nearness
import Respell.Proofs.Decimal.Layout
import Respell.Proofs.PrintedNumbers
import Respell.Proofs.Decimal.Integers
import Respell.Proofs.Json.Strings
import Respell.Proofs.Json.Reading
import Respell.Proofs.Decimal.Notation
import Respell.Proofs.Json.Dump
import Respell.Proofs.Offsets
import Respell.Proofs.Running.Outlets
import Respell.Proofs.Output
import Respell.Proofs.Keyword.Overrides
import Respell.Proofs.Keyword.Objects
import Respell.Proofs.Parsing.Counting
import Respell.Proofs.Parsing.Extending
import Respell.Proofs.Parsing.Counters
import Respell.Proofs.Parsing.Recursion
import Respell.Proofs.Ordering
import Respell.Proofs.Lexing.Numerals
