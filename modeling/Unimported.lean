import Unimported.Text.Blank
import Unimported.Text.WordChar
import Unimported.Text.Printable
import Unimported.Text.Occurrence
import Unimported.Text.Quoted
import Unimported.Text.Utf8
import Unimported.Text.Lines
import Unimported.StringSet
import Unimported.Report.CellWidth
import Unimported.Path.Normal
import Unimported.Import.Resolver
import Unimported.Import.Span
import Unimported.Number.Shortest
import Unimported.Value.Table
import Unimported.Toml.Document
import Unimported.Problem.Account
import Unimported.Journal
import Unimported.FileSystem.Change
import Unimported.Import.Source
import Unimported.Walk
import Unimported.Settings.Load
import Unimported.Audit.Request
import Unimported.Report.Template
import Unimported.CommandLine.Run
import Unimported.Main
import Unimported.Proofs.Import.RoundTrip
import Unimported.Proofs.Audit.NoFalseAlarm
import Unimported.Proofs.FileSystem.Located
import Unimported.Proofs.Walk.Coverage
import Unimported.Proofs.Import.Relative
import Unimported.Proofs.Path.Detour
import Unimported.Proofs.Import.Detour
import Unimported.Proofs.Import.Leftmost
import Unimported.Proofs.Import.Compositional
import Unimported.Proofs.Import.Alias
import Unimported.Proofs.Tree.Linkless
import Unimported.Proofs.FileSystem.Linkless
import Unimported.Proofs.FileSystem.SameContent
import Unimported.Proofs.Walk.Denied
import Unimported.Proofs.Walk.SameContent
import Unimported.Proofs.Survey.SameContent
import Unimported.Proofs.Check.Answered
import Unimported.Proofs.Check.Alike
import Unimported.Proofs.Audit.Denied
import Unimported.Proofs.Settings.Slashes
import Unimported.Proofs.Audit.Slashes
import Unimported.Proofs.Audit.SameContent
import Unimported.Proofs.Tree.Growth
import Unimported.Proofs.Walk.Linkless
import Unimported.Proofs.Walk.Growth
import Unimported.Proofs.Audit.Growth
import Unimported.Proofs.Audit.Elsewhere
import Unimported.Proofs.FileSystem.Shape
import Unimported.Proofs.Check.Unread
import Unimported.Proofs.Walk.Shape
import Unimported.Proofs.Audit.Unreadable
import Unimported.Proofs.Walk.First
import Unimported.Proofs.Audit.Judged
import Unimported.Proofs.Report.Escaped
import Unimported.Proofs.Report.Fitting
import Unimported.Proofs.Report.Verbatim
import Unimported.Proofs.Report.Wrapped
import Unimported.Proofs.Audit.Failures
import Unimported.Proofs.Audit.Validated
import Unimported.Proofs.Settings.Verbosity
import Unimported.Proofs.FileSystem.Spellings
import Unimported.Proofs.CommandLine.Agreement
import Unimported.Proofs.Walk.Ending
import Unimported.Proofs.Settings.Loading
import Unimported.Proofs.Check.Duplicate
import Unimported.Proofs.Import.Directory
import Unimported.Proofs.Audit.Barrels
import Unimported.Proofs.Import.Escaping
import Unimported.Proofs.Text.Utf8
import Unimported.Proofs.Import.LineEndings
import Unimported.Proofs.Audit.Records
import Unimported.Proofs.Value.Table
import Unimported.Proofs.Toml.Distinct
import Unimported.Proofs.Settings.Precedence
