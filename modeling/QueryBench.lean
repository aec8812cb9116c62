import QueryBench.Text.Blank
import QueryBench.Text.Bytes
import QueryBench.Decimal.Numeral
import QueryBench.Decimal.Binary
import QueryBench.Decimal.Text
import QueryBench.Scalar
import QueryBench.Row
import QueryBench.QueryRules.Relabel
import QueryBench.Selection.Basic
import QueryBench.Document.Parser
import QueryBench.Csv.Text
import QueryBench.FileSystem.Basic
import QueryBench.Results.CounterTable
import QueryBench.Results.Import
import QueryBench.Cost.Text
import QueryBench.Configuration.File
import QueryBench.Configuration.Reader
import QueryBench.Cost.File
import QueryBench.Chart.Hatch
import QueryBench.LatencyFigure.Validity
import QueryBench.ThroughputFigure.Layout
import QueryBench.ThroughputFigure.Document
import QueryBench.Drawing.Latency
import QueryBench.Drawing.Throughput
import QueryBench.Drawing.File
import QueryBench.Command.Run
import QueryBench.Command.Inputs
import QueryBench.Main
import QueryBench.Proofs.Outcomes
import QueryBench.Proofs.QueryRules.RawIds
import QueryBench.Proofs.QueryRules.Survivors
import QueryBench.Proofs.Selection.Fastest
import QueryBench.Proofs.LatencyFigure.Provenance
import QueryBench.Proofs.Grouping
import QueryBench.Proofs.Cost.Means
import QueryBench.Proofs.Cost.DisplayIds
import QueryBench.Proofs.Text.Utf8
import QueryBench.Proofs.Text.Trim
import QueryBench.Proofs.Csv.FieldText
import QueryBench.Proofs.Csv.Cursor
import QueryBench.Proofs.Csv.RoundTrip
import QueryBench.Proofs.Results.TimingRows
import QueryBench.Proofs.FileSystem.Append
import QueryBench.Proofs.Results.AppendedTables
import QueryBench.Proofs.Csv.LineEnds
import QueryBench.Proofs.Csv.OpenRecord
import QueryBench.Proofs.Results.OpenTables
import QueryBench.Proofs.Csv.BlankRecord
import QueryBench.Proofs.Selection.Coverage
import QueryBench.Proofs.LatencyFigure.Issues
import QueryBench.Proofs.Cost.Work
import QueryBench.Proofs.Cost.SortedRows
import QueryBench.Proofs.FileSystem.Directory
import QueryBench.Proofs.Results.LogNames
import QueryBench.Proofs.Results.ImportedLogs
import QueryBench.Proofs.Results.LogLines
import QueryBench.Proofs.Results.ImportedDirectories
import QueryBench.Proofs.Results.CampaignTables
import QueryBench.Proofs.Arithmetic.PositiveSums
import QueryBench.Proofs.Drawing.Cells
import QueryBench.Proofs.Chart.Consistency
import QueryBench.Proofs.LatencyFigure.Grid
import QueryBench.Proofs.Chart.BrokenAxis
import QueryBench.Proofs.Chart.Places
import QueryBench.Proofs.LatencyFigure.Bars
import QueryBench.Proofs.ThroughputFigure.Outcomes
import QueryBench.Proofs.ThroughputFigure.Repetitions
import QueryBench.Proofs.ThroughputFigure.Bars
import QueryBench.Proofs.Cost.HiddenBackends
import QueryBench.Proofs.Drawing.ValidFigures
import QueryBench.Proofs.Command.Atomicity
import QueryBench.Proofs.QueryRules.ListedRules
import QueryBench.Proofs.QueryRules.Acceptance
import QueryBench.Proofs.QueryRules.Accounting
import QueryBench.Proofs.Selection.Concatenation
import QueryBench.Proofs.Cost.WrittenTable
import QueryBench.Proofs.Csv.RecordPlaces
import QueryBench.Proofs.Results.ReportedLines
import QueryBench.Proofs.Results.CounterColumns
import QueryBench.Proofs.Arithmetic.Rounding
import QueryBench.Proofs.Arithmetic.Operations
import QueryBench.Proofs.Arithmetic.Encoding
import QueryBench.Proofs.Decimal.Nearest
import QueryBench.Proofs.Decimal.Numerals
import QueryBench.Proofs.Csv.TextTables
import QueryBench.Proofs.Results.TimingGrammar
import QueryBench.Proofs.Results.LogTimes
import QueryBench.Proofs.LatencyFigure.Panels
import QueryBench.Proofs.LatencyFigure.Units
import QueryBench.Proofs.Arithmetic.Range
import QueryBench.Proofs.Arithmetic.NonFinite
import QueryBench.Proofs.Arithmetic.Order
import QueryBench.Proofs.Cost.NonFiniteMeans
import QueryBench.Proofs.Results.CounterReadings
import QueryBench.Proofs.Results.StallReadings
import QueryBench.Proofs.LatencyFigure.DrawableAxes
import QueryBench.Proofs.LatencyFigure.QueryLists
import QueryBench.Proofs.Chart.Hatching
import QueryBench.Proofs.Results.LogNameParts
import QueryBench.Proofs.Text.Lines
import QueryBench.Proofs.Text.Occurrences
import QueryBench.Proofs.Results.LogMarks
import QueryBench.Proofs.Drawing.Shares
import QueryBench.Proofs.Chart.Colors
import QueryBench.Proofs.Configuration.FieldValues
import QueryBench.Proofs.Configuration.Labels
