import StylePrune.Analysis
import StylePrune.Color
import StylePrune.CommandLine.Argument
import StylePrune.CommandLine.Help
import StylePrune.CommandLine.Parse
import StylePrune.Decimal.Shortest
import StylePrune.Disk
import StylePrune.Display
import StylePrune.Glob.Basic
import StylePrune.Glob.Read
import StylePrune.Import.Directive
import StylePrune.Import.Index
import StylePrune.Import.Lines
import StylePrune.Import.Read
import StylePrune.Import.Resolve
import StylePrune.Json.Basic
import StylePrune.Json.Number
import StylePrune.Literal.Basic
import StylePrune.Literal.Cut
import StylePrune.Literal.Lexeme
import StylePrune.Log
import StylePrune.Log.Filter
import StylePrune.Main
import StylePrune.Path.Basic
import StylePrune.Path.Normal
import StylePrune.Program
import StylePrune.Removal
import StylePrune.Report
import StylePrune.Report.File
import StylePrune.Report.Read
import StylePrune.Script.Dialect
import StylePrune.Script.Grammar
import StylePrune.Script.Grammar.Expression
import StylePrune.Script.Grammar.Markup
import StylePrune.Script.Grammar.Module
import StylePrune.Script.Grammar.Statement
import StylePrune.Script.Grammar.Type
import StylePrune.Script.Parser
import StylePrune.Script.Token
import StylePrune.Settings
import StylePrune.SourceTree
import StylePrune.StyleTable
import StylePrune.Text.Blank
import StylePrune.Text.Bytes
import StylePrune.Text.Letter
import StylePrune.Text.Mark
import StylePrune.Text.Number
import StylePrune.Text.Printable
import StylePrune.Text.Quoted
import StylePrune.Text.Range
import StylePrune.Text.Search
import StylePrune.Text.Word
import StylePrune.Usage
import StylePrune.Proofs.Literal.Lexing
import StylePrune.Proofs.Literal.Pieces
import StylePrune.Proofs.Literal.Reading
import StylePrune.Proofs.Literal.Entries
import StylePrune.Proofs.Literal.Excision
import StylePrune.Proofs.Literal.Frame
import StylePrune.Proofs.Literal.Naming
import StylePrune.Proofs.Literal.Removal
import StylePrune.Proofs.StyleTable.Removal
import StylePrune.Proofs.Path.Components
import StylePrune.Proofs.Path.ReportText
import StylePrune.Proofs.Disk.Sight
import StylePrune.Proofs.SourceTree.Order
import StylePrune.Proofs.SourceTree.Load
import StylePrune.Proofs.Report.Order
import StylePrune.Proofs.Removal.Run
import StylePrune.Proofs.Analysis.Report
import StylePrune.Proofs.Analysis.Removal
import StylePrune.Proofs.Json.RoundTrip
import StylePrune.Proofs.Report.RoundTrip
import StylePrune.Proofs.Removal.Frame
import StylePrune.Proofs.Report.File
import StylePrune.Proofs.Program.Staging
import StylePrune.Proofs.Program.Frame
import StylePrune.Proofs.Literal.Body
import StylePrune.Proofs.Literal.Joining
import StylePrune.Proofs.Literal.Order
import StylePrune.Proofs.Literal.Brackets
import StylePrune.Proofs.Literal.Comma
import StylePrune.Proofs.Path.Ending
import StylePrune.Proofs.Path.Location
import StylePrune.Proofs.Import.Matching
import StylePrune.Proofs.Import.Resolving
import StylePrune.Proofs.Analysis.Folders
import StylePrune.Proofs.Text.Octets
import StylePrune.Proofs.Text.Word
import StylePrune.Proofs.Literal.Offsets
import StylePrune.Proofs.Literal.Octets.Reader
import StylePrune.Proofs.Literal.Octets.Lexing
import StylePrune.Proofs.Literal.Octets.Reading
import StylePrune.Proofs.Literal.Octets.Editing
import StylePrune.Proofs.Literal.Template
import StylePrune.Proofs.StyleTable.Binding
import StylePrune.Proofs.Import.Printing
import StylePrune.Proofs.Import.Lines
import StylePrune.Proofs.SourceTree.Selection
