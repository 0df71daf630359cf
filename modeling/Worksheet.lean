import Worksheet.Arithmetic
import Worksheet.Arithmetic.Machine
import Worksheet.Calendar.Date
import Worksheet.Calendar.DateTime
import Worksheet.Calendar.Duration
import Worksheet.CommandLine.Basic
import Worksheet.CommandLine.Clock
import Worksheet.CommandLine.Config
import Worksheet.CommandLine.Host
import Worksheet.CommandLine.Memory
import Worksheet.CommandLine.Options
import Worksheet.CommandLine.Toml
import Worksheet.Context
import Worksheet.Declaration
import Worksheet.Display.DatePattern
import Worksheet.Display.Number
import Worksheet.Display.Spec
import Worksheet.Display.Template
import Worksheet.Display.Value
import Worksheet.Document
import Worksheet.Expression.Datum
import Worksheet.Expression.Digest
import Worksheet.Expression.Display
import Worksheet.Expression.Eval
import Worksheet.Expression.Failure
import Worksheet.Expression.Operator
import Worksheet.Expression.Parse
import Worksheet.Expression.Syntax
import Worksheet.Expression.Token
import Worksheet.Failure
import Worksheet.Library.Basic
import Worksheet.Library.Calendar
import Worksheet.Library.Chance
import Worksheet.Library.Math
import Worksheet.Library.Sequence
import Worksheet.Line
import Worksheet.LineError
import Worksheet.Main
import Worksheet.Notation.Basic
import Worksheet.Notation.Operator
import Worksheet.Notation.Term
import Worksheet.Number.Decimal
import Worksheet.Number.Fraction
import Worksheet.Number.Real
import Worksheet.Number.Wide
import Worksheet.Number.Word
import Worksheet.Quantity.Basic
import Worksheet.Quantity.Unit
import Worksheet.Recalculation
import Worksheet.Session
import Worksheet.Settings
import Worksheet.Table.Layout
import Worksheet.Table.Report
import Worksheet.Table.Spec
import Worksheet.Text.Class
import Worksheet.Text.Digits
import Worksheet.Text.Lines
import Worksheet.Text.Literal
import Worksheet.Text.Pattern
import Worksheet.Text.Quoted
import Worksheet.Text.Ranges
import Worksheet.Text.Split
import Worksheet.Value.Basic
import Worksheet.Proofs.Context.Representation
import Worksheet.Proofs.Recalculation.Replay
import Worksheet.Proofs.Line.Kinds
import Worksheet.Proofs.Document.Grouping
import Worksheet.Proofs.Document.Loading
import Worksheet.Proofs.Document.Reading
import Worksheet.Proofs.Recalculation.Isolation
import Worksheet.Proofs.Recalculation.Saved
import Worksheet.Proofs.Text.Digits
import Worksheet.Proofs.Text.Literal
import Worksheet.Proofs.Notation.Patterns
import Worksheet.Proofs.Notation.Literals
import Worksheet.Proofs.Text.Class
import Worksheet.Proofs.Text.Pattern
import Worksheet.Proofs.Context.Names
import Worksheet.Proofs.Session.Stored
import Worksheet.Proofs.Declaration.Calls
import Worksheet.Proofs.Session.Names
import Worksheet.Proofs.Number.Word
import Worksheet.Proofs.Number.Rational
import Worksheet.Proofs.Number.Wide
import Worksheet.Proofs.Number.Convergents
import Worksheet.Proofs.Number.Exact
import Worksheet.Proofs.Number.Reading
import Worksheet.Proofs.Number.Rounding
import Worksheet.Proofs.Number.Value
import Worksheet.Proofs.Number.Expansion
import Worksheet.Proofs.Number.Nearest
import Worksheet.Proofs.Number.Binary
import Worksheet.Proofs.Number.Shortest
import Worksheet.Proofs.Number.FromReal
import Worksheet.Proofs.Display.SingleLine
import Worksheet.Proofs.Display.Template
import Worksheet.Proofs.Table.Spec
import Worksheet.Proofs.Context.SingleLine
import Worksheet.Proofs.Table.Layout
import Worksheet.Proofs.Table.Report
import Worksheet.Proofs.Session.SingleLine
import Worksheet.Proofs.Recalculation.Inert
import Worksheet.Proofs.Context.Sections
import Worksheet.Proofs.Table.Sections
import Worksheet.Proofs.Session.Ending
import Worksheet.Proofs.Session.Sections
import Worksheet.Proofs.Recalculation.Sections
import Worksheet.Proofs.Display.Alike
import Worksheet.Proofs.Table.Alike
import Worksheet.Proofs.Recalculation.Styles
import Worksheet.Proofs.Failure.Alike
import Worksheet.Proofs.Arithmetic.Exact
import Worksheet.Proofs.Number.Real
import Worksheet.Proofs.Arithmetic.Order
import Worksheet.Proofs.Session.Frame
import Worksheet.Proofs.Expression.Token
import Worksheet.Proofs.Notation.Numerals
import Worksheet.Proofs.Text.Keyword
import Worksheet.Proofs.Notation.Untouched
import Worksheet.Proofs.Notation.Pieces
import Worksheet.Proofs.Expression.Parse
import Worksheet.Proofs.Library.Constructors
import Worksheet.Proofs.Notation.Hygiene
import Worksheet.Proofs.Session.Hygiene
import Worksheet.Proofs.Expression.Names
import Worksheet.Proofs.Notation.Names
import Worksheet.Proofs.Table.Stacks
import Worksheet.Proofs.Session.Calls
import Worksheet.Proofs.Session.Stacks
import Worksheet.Proofs.Declaration.Reading
import Worksheet.Proofs.Session.References
import Worksheet.Proofs.Expression.Formula
import Worksheet.Proofs.Notation.Borders
import Worksheet.Proofs.Expression.Operands
import Worksheet.Proofs.Notation.Formula
import Worksheet.Proofs.Library.Operators
import Worksheet.Proofs.Notation.Percentages
import Worksheet.Proofs.Session.Plain
import Worksheet.Proofs.Session.Percentages
import Worksheet.Proofs.Notation.Matches
import Worksheet.Proofs.Notation.Kept
import Worksheet.Proofs.Notation.Modulo
import Worksheet.Proofs.Notation.Roots
import Worksheet.Proofs.Notation.Operands
import Worksheet.Proofs.Notation.Radicals
import Worksheet.Proofs.Session.Roots
import Worksheet.Proofs.Expression.Renaming
import Worksheet.Proofs.Expression.Lambda
import Worksheet.Proofs.Notation.Lambda
import Worksheet.Proofs.Session.Parameters
import Worksheet.Proofs.Notation.Exponents
import Worksheet.Proofs.Declaration.Binding
import Worksheet.Proofs.Number.Neutral
import Worksheet.Proofs.Library.Quantities
import Worksheet.Proofs.Notation.UnitPowers
import Worksheet.Proofs.Session.UnitPowers
import Worksheet.Proofs.Notation.Progress
import Worksheet.Proofs.Notation.Skeleton
import Worksheet.Proofs.Session.Backquotes
import Worksheet.Proofs.Calendar.DayNumber
import Worksheet.Proofs.Calendar.Months
import Worksheet.Proofs.Calendar.Moments
import Worksheet.Proofs.Arithmetic.Temporal
import Worksheet.Proofs.Display.Spans
import Worksheet.Proofs.Arithmetic.Quantities
import Worksheet.Proofs.Quantity.Units
import Worksheet.Proofs.Quantity.Dimensions
import Worksheet.Proofs.Table.Steps
import Worksheet.Proofs.Table.Widths
import Worksheet.Proofs.Table.Groups
import Worksheet.Proofs.Document.Saving
import Worksheet.Proofs.Document.Notes
import Worksheet.Proofs.Table.Titles
import Worksheet.Proofs.Table.Written
import Worksheet.Proofs.Table.Rows
import Worksheet.Proofs.Library.Sums
import Worksheet.Proofs.Table.Subtotals
import Worksheet.Proofs.Session.Subtotals
import Worksheet.Proofs.Document.LineNumbers
import Worksheet.Proofs.Display.Composition
import Worksheet.Proofs.Display.Form
import Worksheet.Proofs.Display.Groups
import Worksheet.Proofs.Expression.Numeral
import Worksheet.Proofs.Display.Integers
import Worksheet.Proofs.Display.Zeros
import Worksheet.Proofs.Arithmetic.Commutative
import Worksheet.Proofs.Library.Ordering
import Worksheet.Proofs.Library.Divisors
import Worksheet.Bytes
import Worksheet.Proofs.Bytes.Encoding
import Worksheet.Proofs.Bytes.Scanners
import Worksheet.Proofs.Bytes.Copies
