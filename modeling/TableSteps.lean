import TableSteps.Aggregation.Check
import TableSteps.Aggregation.Config
import TableSteps.Aggregation.Run
import TableSteps.Binary64.Bits
import TableSteps.Binary64.Magnitude
import TableSteps.Binary64.Order
import TableSteps.Binary64.Quantity
import TableSteps.Cell
import TableSteps.Chart.BoxPlot
import TableSteps.Chart.Build
import TableSteps.Chart.Cartesian
import TableSteps.Chart.Column
import TableSteps.Chart.Figure
import TableSteps.Chart.Heatmap
import TableSteps.Chart.Histogram
import TableSteps.Chart.Kind
import TableSteps.Chart.LabelTree
import TableSteps.Chart.Options
import TableSteps.Chart.Pie
import TableSteps.Chart.Spec
import TableSteps.Decimal.Basic
import TableSteps.Decimal.Layout
import TableSteps.Decimal.Reading
import TableSteps.Decimal.Shortest
import TableSteps.Dictionary
import TableSteps.Filter.Check
import TableSteps.Filter.Config
import TableSteps.Filter.Ranking
import TableSteps.Filter.Run
import TableSteps.Formula.Expression
import TableSteps.Formula.Lexeme
import TableSteps.Formula.Parser
import TableSteps.Formula.RowValue
import TableSteps.Formula.Token
import TableSteps.Group
import TableSteps.Json.Basic
import TableSteps.Json.Reading
import TableSteps.Json.Writing
import TableSteps.Key
import TableSteps.Operator
import TableSteps.Pipeline
import TableSteps.Proofs.Aggregation.Adequacy
import TableSteps.Proofs.Aggregation.Reference
import TableSteps.Proofs.Aggregation.RollUp
import TableSteps.Proofs.Aggregation.RowOrder
import TableSteps.Proofs.Binary64.Arithmetic
import TableSteps.Proofs.Binary64.Finite
import TableSteps.Proofs.Binary64.Lawful
import TableSteps.Proofs.Binary64.Rounding
import TableSteps.Proofs.Binary64.SignedZero
import TableSteps.Proofs.Binary64.Value
import TableSteps.Proofs.Chart.Adequacy
import TableSteps.Proofs.Chart.ColorSplit
import TableSteps.Proofs.Chart.Columns
import TableSteps.Proofs.Chart.Forest
import TableSteps.Proofs.Chart.LabelPaths
import TableSteps.Proofs.Chart.LabelTree
import TableSteps.Proofs.Chart.Pivot
import TableSteps.Proofs.Decimal.Numeral
import TableSteps.Proofs.Decimal.ReadBack
import TableSteps.Proofs.Errors.Basic
import TableSteps.Proofs.Errors.Checks
import TableSteps.Proofs.Errors.Execute
import TableSteps.Proofs.Filter.Adequacy
import TableSteps.Proofs.Filter.CategoryJoin
import TableSteps.Proofs.Filter.FullBand
import TableSteps.Proofs.Filter.JoinAggregated
import TableSteps.Proofs.Filter.Kept
import TableSteps.Proofs.Filter.Quantile
import TableSteps.Proofs.Filter.Ranking
import TableSteps.Proofs.Filter.Selection
import TableSteps.Proofs.Filter.Sequence
import TableSteps.Proofs.Filter.SideBySide
import TableSteps.Proofs.Filter.StaleCategories
import TableSteps.Proofs.Filter.Twice
import TableSteps.Proofs.Finite.Aggregation
import TableSteps.Proofs.Finite.Basic
import TableSteps.Proofs.Finite.Decoding
import TableSteps.Proofs.Finite.Pipeline
import TableSteps.Proofs.Finite.Transform
import TableSteps.Proofs.Formula.AsOperations
import TableSteps.Proofs.Formula.Grammar
import TableSteps.Proofs.Formula.Height
import TableSteps.Proofs.Formula.Parsing
import TableSteps.Proofs.Formula.RoundTrip
import TableSteps.Proofs.Formula.RowOutcome
import TableSteps.Proofs.Formula.RowSum
import TableSteps.Proofs.Formula.Scanner
import TableSteps.Proofs.Formula.Scanning
import TableSteps.Proofs.Formula.SourceForm
import TableSteps.Proofs.Formula.Walk
import TableSteps.Proofs.Formula.Writing
import TableSteps.Proofs.Group.Nested
import TableSteps.Proofs.Indexing.Aggregation
import TableSteps.Proofs.Indexing.Basic
import TableSteps.Proofs.Indexing.Cartesian
import TableSteps.Proofs.Indexing.Chart
import TableSteps.Proofs.Indexing.Column
import TableSteps.Proofs.Indexing.Execute
import TableSteps.Proofs.Indexing.Filter
import TableSteps.Proofs.Indexing.Heatmap
import TableSteps.Proofs.Indexing.LabelTree
import TableSteps.Proofs.Indexing.Lookup
import TableSteps.Proofs.Indexing.Numbering
import TableSteps.Proofs.Indexing.Summary
import TableSteps.Proofs.Indexing.Transform
import TableSteps.Proofs.Key.Canonical
import TableSteps.Proofs.Key.Equality
import TableSteps.Proofs.ListPairs
import TableSteps.Proofs.Outcome
import TableSteps.Proofs.Pipeline.Append
import TableSteps.Proofs.Pipeline.Commute
import TableSteps.Proofs.Pipeline.Transparent
import TableSteps.Proofs.Quantity.Exact
import TableSteps.Proofs.Quantity.Laws
import TableSteps.Proofs.Quantity.Order
import TableSteps.Proofs.Reduction.Meaning
import TableSteps.Proofs.Reduction.Parts
import TableSteps.Proofs.SignedZero.Aggregation
import TableSteps.Proofs.SignedZero.Basic
import TableSteps.Proofs.SignedZero.Chart
import TableSteps.Proofs.SignedZero.Execute
import TableSteps.Proofs.SignedZero.Filter
import TableSteps.Proofs.SignedZero.Summary
import TableSteps.Proofs.SignedZero.Transform
import TableSteps.Proofs.Step.Adequacy
import TableSteps.Proofs.Step.DeclarationOrder
import TableSteps.Proofs.Step.Execution
import TableSteps.Proofs.Step.Lookup
import TableSteps.Proofs.Step.NormalForm
import TableSteps.Proofs.Step.OutputReadBack
import TableSteps.Proofs.Step.ReadBack
import TableSteps.Proofs.Step.Refusal
import TableSteps.Proofs.Step.ScopePairs
import TableSteps.Proofs.Summary.Adequacy
import TableSteps.Proofs.Summary.Reference
import TableSteps.Proofs.Summary.Sequential
import TableSteps.Proofs.Table.Import
import TableSteps.Proofs.Table.Reachable
import TableSteps.Proofs.Table.RoundTrip
import TableSteps.Proofs.Text.ByteOrder
import TableSteps.Proofs.Transform.Adequacy
import TableSteps.Proofs.Transform.LastWriter
import TableSteps.Proofs.Transform.Prediction
import TableSteps.Proofs.Transform.RowByRow
import TableSteps.Proofs.Transform.SingleAssignment
import TableSteps.Proofs.Wire.ReadBack
import TableSteps.Proofs.Wire.Record
import TableSteps.Proofs.Wire.Storable
import TableSteps.Quantity
import TableSteps.Reduction
import TableSteps.Step.Basic
import TableSteps.Step.Columns
import TableSteps.Step.Error
import TableSteps.Step.Kind
import TableSteps.Step.Logged
import TableSteps.Step.Output
import TableSteps.Step.Run
import TableSteps.Step.Scope
import TableSteps.Step.Subject
import TableSteps.Summary.Check
import TableSteps.Summary.Config
import TableSteps.Summary.Run
import TableSteps.Table.Basic
import TableSteps.Table.InPlace
import TableSteps.Table.Records
import TableSteps.Table.WellFormed
import TableSteps.Table.Wire
import TableSteps.Text.CharClass
import TableSteps.Text.Letter
import TableSteps.Transform.Check
import TableSteps.Transform.Config
import TableSteps.Transform.Run
import TableSteps.Wire.Decoder
import TableSteps.Wire.Key
import TableSteps.Wire.Record
