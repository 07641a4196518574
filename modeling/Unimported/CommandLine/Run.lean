import Unimported.CommandLine.Help
import Unimported.CommandLine.Options
import Unimported.Report.Emoji
import Unimported.Report.Template

/-!
# Runs of the command

A run ends with an exit status, what it printed, the journal as far as it was shown, and the logger
as it was left.  The report is advisory, so findings do not change the status: it is 0 for a report,
1 when a problem kept the run from giving one, and 2 when the command line makes no sense.  The
flags decide at first how much of the journal is shown, and the settings once they are loaded.

## Main definitions

* `CommandLine.Outcome` — how a run ends.
* `CommandLine.sweep` — a run that gives a report.
* `CommandLine.run` — a run of the command with given arguments.
-/

namespace Unimported.CommandLine

open Report (Line)
open Report.Emoji (Known)

/-- How a run ends. -/
structure Outcome where
  /-- The exit status. -/
  status : Nat
  /-- What was printed. -/
  output : String
  /-- The records that were shown. -/
  journal : List Record
  /-- The logger as it was left. -/
  logger : Logger
  deriving DecidableEq, Repr, Inhabited

/-- A line on the terminal. -/
def printedLine (emoji : Known) (l : Line) : String :=
  String.ofList (l.printedBy (Report.Emoji.replace emoji) Report.terminalWidth)

/-- A report on the terminal. -/
def printedReport (emoji : Known) (a : Audit) : String :=
  Report.textBy (Report.Emoji.replace emoji) Report.terminalWidth a.sections

/-- The version of the program. -/
def version : String := "0.1.0"

/-- What is printed when the version is asked for. -/
def versionLine : Line :=
  [.style "bold cyan", .fixed "UI Sweep", .style "/bold cyan", .fixed " version ",
    .style "green", .fixed version, .style "/green"]

/-- What is printed of a problem; its text may come from outside. -/
def errorLine (text : Report.Piece) : Line :=
  [.style "red", .fixed "Error:", .style "/red", .fixed " ", text]

/-- What is said of two flags that contradict each other. -/
def contradictionText : String := "--verbose and --quiet are mutually exclusive"

/-- A run that ends before any logger is set up. -/
def early (status : Nat) (output : String) : Outcome := ⟨status, output, [], {}⟩

/-- The record of a problem. -/
def problemRecord (p : Problem) : Record := ⟨.error, .command, p.kind.name ++ ": " ++ p.text⟩

/-- The records that a logger shows. -/
def shown (l : Logger) (records : List Record) : List Record := records.filter l.shows

/-- A run that a problem ended, after records that were written under the same logger. -/
def failed (emoji : Known) (l : Logger) (before : List Record) (p : Problem) : Outcome :=
  ⟨1, printedLine emoji (errorLine (.given p.text)), shown l (before ++ [problemRecord p]), l⟩

/-- The project root that was asked for. -/
def Options.rootPath (o : Options) : Path := .ofString o.root

/-- The values that the flags give to settings. -/
def Options.overrides (o : Options) : List (String × Value) :=
  [("verbose", .truth (o.has .verbose)), ("quiet", .truth (o.has .quiet))]

/-- The settings of the project that was asked for. -/
def Options.settings (o : Options) (fs : FileSystem) : Except Failure Settings :=
  Settings.load fs (some o.rootPath) none o.overrides

/-- Audit a project whose settings are known. -/
def audit (fs : FileSystem) (root : Path) (s : Settings) : Traced Audit := do
  let text ← .ofFault s.shown
  .note .debug .command ("Loaded config: " ++ text)
  Audit.ofSettings fs root s Check.all

/-- A run that gives a report.  The journal is shown at the level of the flags until the settings
are known. -/
def sweep (fs : FileSystem) (o : Options) (emoji : Known) : Except Fault Outcome :=
  let first := Logger.setUp {} (.ofFlags (o.has .verbose) (o.has .quiet))
  match o.settings fs with
  | .error (.fault f) => .error f
  | .error (.problem p) => .ok (failed emoji first [] p)
  | .ok s =>
      let logger := first.setUp s.verbosity
      let result := audit fs o.rootPath s
      match result.outcome with
      | .error (.fault f) => .error f
      | .error (.problem p) => .ok (failed emoji logger result.records p)
      | .ok a => .ok ⟨0, printedReport emoji a, shown logger result.records, logger⟩

/-- A run with readable options.  Help is given whatever else they say; then a root that is a file
and arguments that are no options are refused. -/
def runOptions (fs : FileSystem) (o : Options) (emoji : Known) : Except Fault Outcome := do
  if o.has .help then return early 0 Help.page
  else if (← fs.leadsToFile o.root) || !o.operands.isEmpty then return early 2 ""
  else if o.has .version then return early 0 (printedLine emoji versionLine)
  else if o.has .verbose && o.has .quiet then
    return early 1 (printedLine emoji (errorLine (.fixed contradictionText)))
  else sweep fs o emoji

/-- A run of the command with given arguments, on a terminal that knows these emoji. -/
def run (fs : FileSystem) (args : List String) (emoji : Known := Report.Emoji.noneKnown) :
    Except Fault Outcome :=
  match read args with
  | .error _ => .ok (early 2 "")
  | .ok o => runOptions fs o emoji

end Unimported.CommandLine
