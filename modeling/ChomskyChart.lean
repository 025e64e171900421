import ChomskyChart.Chart.Basic
import ChomskyChart.Command.Run
import ChomskyChart.Grammar.Draft
import ChomskyChart.Grammar.Names
import ChomskyChart.Grammar.Reader
import ChomskyChart.Grammar.Recognition
import ChomskyChart.Main
import ChomskyChart.Recognition.Cancellation
import ChomskyChart.Recognition.Probe
import ChomskyChart.Recognition.Trace
import ChomskyChart.Report.Charts
import ChomskyChart.Report.Productions
import ChomskyChart.Report.Sentences
import ChomskyChart.Samples
import ChomskyChart.Proofs.Recognition.Derivation
import ChomskyChart.Proofs.Recognition.Exactness
import ChomskyChart.Proofs.Recognition.Lookups
import ChomskyChart.Proofs.Recognition.Cells
import ChomskyChart.Proofs.Recognition.Checkpoints
import ChomskyChart.Proofs.Grammar.Numbers
import ChomskyChart.Proofs.Grammar.Items
import ChomskyChart.Proofs.Grammar.Build
import ChomskyChart.Proofs.Grammar.Symbols
import ChomskyChart.Proofs.Grammar.Cells
import ChomskyChart.Proofs.Grammar.Rewriting
import ChomskyChart.Proofs.Grammar.Language
import ChomskyChart.Proofs.Grammar.Rearrangement
import ChomskyChart.Proofs.Text.Words
import ChomskyChart.Proofs.Text.Lines
import ChomskyChart.Proofs.Rule.Line
import ChomskyChart.Proofs.Rule.Reading
import ChomskyChart.Proofs.Rule.Layout
import ChomskyChart.Proofs.Grammar.Productions
import ChomskyChart.Proofs.Grammar.Display
import ChomskyChart.Proofs.Command.Answers
import ChomskyChart.Proofs.Command.Arguments
import ChomskyChart.Proofs.Command.Sources
import ChomskyChart.Proofs.Grammar.EmptyBodies
import ChomskyChart.Proofs.Grammar.Renaming
import ChomskyChart.Proofs.Chart.Triangle
import ChomskyChart.Proofs.Text.Bytes
import ChomskyChart.Proofs.Command.Endings
import ChomskyChart.Proofs.Report.Charts
import ChomskyChart.Proofs.Recognition.Counts
import ChomskyChart.Proofs.Grammar.Bounds
import ChomskyChart.Proofs.Recognition.Alarm
import ChomskyChart.Proofs.Format.JsonTokens
import ChomskyChart.Proofs.Format.JsonValues
import ChomskyChart.Proofs.Report.Sentences
import ChomskyChart.Proofs.Command.Sections
import ChomskyChart.Proofs.Recognition.Schedules
import ChomskyChart.Proofs.Recognition.Records
import ChomskyChart.Proofs.Recognition.Traces
import ChomskyChart.Proofs.Grammar.Additions
import ChomskyChart.Proofs.Grammar.Warnings
import ChomskyChart.Proofs.Report.Productions
import ChomskyChart.Proofs.Rule.Concatenation
import ChomskyChart.Proofs.Grammar.Occurrences
import ChomskyChart.Proofs.Grammar.Derivers
import ChomskyChart.Proofs.Grammar.WellFormed
import ChomskyChart.Proofs.Text.Slices
import ChomskyChart.Proofs.Tokens
import ChomskyChart.Proofs.Format.Latex
import ChomskyChart.Proofs.Report.Tables
import ChomskyChart.Proofs.Format.ControlWords
import ChomskyChart.Proofs.Report.Lines
import ChomskyChart.Proofs.Report.Columns
import ChomskyChart.Proofs.Chart.Addresses
import ChomskyChart.Proofs.Recognition.Accesses
