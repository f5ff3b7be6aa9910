import ClassSelection.CommandLine.Arguments
import ClassSelection.CommandLine.Help
import ClassSelection.CommandLine.Run
import ClassSelection.Condition.Algebra
import ClassSelection.Condition.Expr
import ClassSelection.Condition.Registry
import ClassSelection.Extract
import ClassSelection.File.Path
import ClassSelection.File.System
import ClassSelection.Json.Parser
import ClassSelection.Json.Printer
import ClassSelection.Main
import ClassSelection.Proofs.Condition.Building
import ClassSelection.Proofs.Condition.Cell
import ClassSelection.Proofs.Condition.Columns
import ClassSelection.Proofs.Condition.Flatten
import ClassSelection.Proofs.Condition.Negation
import ClassSelection.Proofs.Condition.Outline
import ClassSelection.Proofs.Condition.WellFormed
import ClassSelection.Proofs.Csv.Reading
import ClassSelection.Proofs.Extract
import ClassSelection.Proofs.File.Path
import ClassSelection.Proofs.File.System
import ClassSelection.Proofs.Overwriting
import ClassSelection.Proofs.Reader.Diagnostics
import ClassSelection.Proofs.Reader.Dispatch
import ClassSelection.Proofs.Reader.Display
import ClassSelection.Proofs.Reader.FilterList
import ClassSelection.Proofs.Reader.Guard
import ClassSelection.Proofs.Reader.Invariant
import ClassSelection.Proofs.Reader.Lines
import ClassSelection.Proofs.Reader.Progress
import ClassSelection.Proofs.Reader.Recursion
import ClassSelection.Proofs.Reader.Soundness
import ClassSelection.Proofs.Reader.Swapped
import ClassSelection.Proofs.Reader.Takes
import ClassSelection.Proofs.Reader.Termination
import ClassSelection.Proofs.Source.Ending
import ClassSelection.Proofs.Source.Merging
import ClassSelection.Proofs.Source.Paths
import ClassSelection.Proofs.Source.Walk
import ClassSelection.Proofs.Table.Cells
import ClassSelection.Proofs.Table.Csv
import ClassSelection.Proofs.Table.Emission
import ClassSelection.Proofs.Table.Exclusion
import ClassSelection.Proofs.Table.Exits
import ClassSelection.Proofs.Table.FilterLists
import ClassSelection.Proofs.Table.Grouping
import ClassSelection.Proofs.Table.Json
import ClassSelection.Proofs.Table.Lines
import ClassSelection.Proofs.Table.Numbering
import ClassSelection.Proofs.Table.Rows
import ClassSelection.Proofs.Table.ScopeHistory
import ClassSelection.Proofs.Table.Scopes
import ClassSelection.Proofs.Table.Select
import ClassSelection.Proofs.Table.WellFormed
import ClassSelection.Proofs.Text.Encoding
import ClassSelection.Proofs.Text.Uppercase
import ClassSelection.Proofs.Token.History
import ClassSelection.Proofs.Token.Layout
import ClassSelection.Proofs.Token.Lexing
import ClassSelection.Proofs.Token.Place
import ClassSelection.Routine.Basic
import ClassSelection.Settings
import ClassSelection.Table.Unfold
import ClassSelection.Table.Write
import ClassSelection.Text.Encoding
import ClassSelection.Token.Stream
