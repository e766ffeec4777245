import RowFilter.Binary64.Basic
import RowFilter.Binary64.Rounding
import RowFilter.CommandLine.Arguments
import RowFilter.CommandLine.Command
import RowFilter.Compile
import RowFilter.Decimal.Digits
import RowFilter.Decimal.Layout
import RowFilter.Decimal.Numeral
import RowFilter.Decimal.Shortest
import RowFilter.Filter.Basic
import RowFilter.Filter.Comparison
import RowFilter.Filter.Json
import RowFilter.Filter.Literal
import RowFilter.Filter.Rendering
import RowFilter.Filter.Search
import RowFilter.Filter.Span
import RowFilter.Grammar.Cursor
import RowFilter.Grammar.Expected
import RowFilter.Grammar.Expr
import RowFilter.Grammar.Node
import RowFilter.Grammar.Run
import RowFilter.Json.Basic
import RowFilter.Json.Writer
import RowFilter.Main
import RowFilter.Polish
import RowFilter.Postgres.Condition
import RowFilter.Postgres.Query
import RowFilter.Proofs.Binary64.Interval
import RowFilter.Proofs.Binary64.Nearest
import RowFilter.Proofs.Binary64.Order
import RowFilter.Proofs.Binary64.Rounding
import RowFilter.Proofs.Binary64.Value
import RowFilter.Proofs.CommandLine.Arguments
import RowFilter.Proofs.CommandLine.Query
import RowFilter.Proofs.CommandLine.Source
import RowFilter.Proofs.Decimal.Exact
import RowFilter.Proofs.Decimal.Layout
import RowFilter.Proofs.Decimal.Reading
import RowFilter.Proofs.Decimal.Shortest
import RowFilter.Proofs.Decimal.Spelling
import RowFilter.Proofs.Filter.Association
import RowFilter.Proofs.Filter.Canonical
import RowFilter.Proofs.Filter.Number
import RowFilter.Proofs.Filter.Placement
import RowFilter.Proofs.Filter.Polish
import RowFilter.Proofs.Filter.Preorder
import RowFilter.Proofs.Filter.Regular
import RowFilter.Proofs.Filter.Rendering
import RowFilter.Proofs.Filter.Search
import RowFilter.Proofs.Filter.Spans
import RowFilter.Proofs.Filter.Truth
import RowFilter.Proofs.Filter.Writing
import RowFilter.Proofs.Grammar.Accepts
import RowFilter.Proofs.Grammar.Adequacy
import RowFilter.Proofs.Grammar.Alike
import RowFilter.Proofs.Grammar.Atomic
import RowFilter.Proofs.Grammar.Awaited
import RowFilter.Proofs.Grammar.Calls
import RowFilter.Proofs.Grammar.Composed
import RowFilter.Proofs.Grammar.Copied
import RowFilter.Proofs.Grammar.Detached
import RowFilter.Proofs.Grammar.Locality
import RowFilter.Proofs.Grammar.Matches
import RowFilter.Proofs.Grammar.Moved
import RowFilter.Proofs.Grammar.Noting
import RowFilter.Proofs.Grammar.Order
import RowFilter.Proofs.Grammar.Piece
import RowFilter.Proofs.Grammar.Ranked
import RowFilter.Proofs.Grammar.Reads
import RowFilter.Proofs.Grammar.Replacement
import RowFilter.Proofs.Grammar.Resumption
import RowFilter.Proofs.Grammar.Simulation
import RowFilter.Proofs.Grammar.Stable
import RowFilter.Proofs.Grammar.Stack
import RowFilter.Proofs.Grammar.Tracking
import RowFilter.Proofs.Grammar.Trailing
import RowFilter.Proofs.Grammar.Yields
import RowFilter.Proofs.Json.Text
import RowFilter.Proofs.Postgres.Distinct
import RowFilter.Proofs.Postgres.Grammar
import RowFilter.Proofs.Postgres.Lexing
import RowFilter.Proofs.Postgres.Reading
import RowFilter.Proofs.Postgres.Settings
import RowFilter.Proofs.Postgres.Statement
import RowFilter.Proofs.Postgres.Token
import RowFilter.Proofs.Pushdown.Collisions
import RowFilter.Proofs.Pushdown.Conversion
import RowFilter.Proofs.Pushdown.LiteralSet
import RowFilter.Proofs.Pushdown.Membership
import RowFilter.Proofs.Pushdown.PrintedForm
import RowFilter.Proofs.Pushdown.Refusals
import RowFilter.Proofs.Pushdown.SetOrder
import RowFilter.Proofs.Pushdown.SetText
import RowFilter.Proofs.Syntax.Agreement
import RowFilter.Proofs.Syntax.Assembly
import RowFilter.Proofs.Syntax.Balance
import RowFilter.Proofs.Syntax.Build
import RowFilter.Proofs.Syntax.Built
import RowFilter.Proofs.Syntax.Caret
import RowFilter.Proofs.Syntax.Chains
import RowFilter.Proofs.Syntax.Classification
import RowFilter.Proofs.Syntax.Completion
import RowFilter.Proofs.Syntax.Composition
import RowFilter.Proofs.Syntax.Conditions
import RowFilter.Proofs.Syntax.Context
import RowFilter.Proofs.Syntax.Coordinates
import RowFilter.Proofs.Syntax.Copied
import RowFilter.Proofs.Syntax.Depth
import RowFilter.Proofs.Syntax.Descriptions
import RowFilter.Proofs.Syntax.Detached
import RowFilter.Proofs.Syntax.Edges
import RowFilter.Proofs.Syntax.ErrorPlace
import RowFilter.Proofs.Syntax.ErrorToken
import RowFilter.Proofs.Syntax.Keywords
import RowFilter.Proofs.Syntax.Layout
import RowFilter.Proofs.Syntax.LetterCase
import RowFilter.Proofs.Syntax.Levels
import RowFilter.Proofs.Syntax.Lexemes
import RowFilter.Proofs.Syntax.Lookahead
import RowFilter.Proofs.Syntax.MaximalMunch
import RowFilter.Proofs.Syntax.Nesting
import RowFilter.Proofs.Syntax.Normalisation
import RowFilter.Proofs.Syntax.Notation
import RowFilter.Proofs.Syntax.Number
import RowFilter.Proofs.Syntax.Parse
import RowFilter.Proofs.Syntax.Placement
import RowFilter.Proofs.Syntax.Printing
import RowFilter.Proofs.Syntax.Quoted
import RowFilter.Proofs.Syntax.Ranking
import RowFilter.Proofs.Syntax.Recursion
import RowFilter.Proofs.Syntax.Relocation
import RowFilter.Proofs.Syntax.RoundTrip
import RowFilter.Proofs.Syntax.Seams
import RowFilter.Proofs.Syntax.Shape
import RowFilter.Proofs.Syntax.Slices
import RowFilter.Proofs.Syntax.Suggestions
import RowFilter.Proofs.Syntax.Token
import RowFilter.Proofs.Syntax.TokenOrder
import RowFilter.Proofs.Syntax.TrailingGap
import RowFilter.Proofs.Syntax.Values
import RowFilter.Proofs.Syntax.WellFormed
import RowFilter.Proofs.Syntax.Words
import RowFilter.Proofs.Text.Bytes
import RowFilter.Proofs.Text.Letters
import RowFilter.Proofs.Text.Lines
import RowFilter.Proofs.Text.Longest
import RowFilter.Proofs.Text.Stops
import RowFilter.Pushdown.Conversion
import RowFilter.Pushdown.Dnf
import RowFilter.Pushdown.Hashing
import RowFilter.Pushdown.LiteralSet
import RowFilter.Syntax.Error
import RowFilter.Syntax.Nesting
import RowFilter.Syntax.Parse
import RowFilter.Syntax.Rule
import RowFilter.Syntax.Tree
import RowFilter.Text.Alphanumeric
import RowFilter.Text.Blank
import RowFilter.Text.Position
