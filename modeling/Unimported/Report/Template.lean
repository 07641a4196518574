import Unimported.Audit
import Unimported.Report.Markup
import Unimported.Report.Wrap

/-!
# The report

The report names each section by its number and title and tells its remarks one to a line.  A
summary lists all candidates for removal, numbered through, or says that there are none; notes
close the report.  A line is made of styles, fixed text, and text that comes from the audit.  It is
printed by marking it up, with the latter escaped, and wrapping what the markup prints.

## Main definitions

* `Report.Piece`, `Report.Line` — what lines are made of.
* `Report.lines` — the lines of a report.
* `Report.Line.plain` — a line without its styles.
* `Report.textBy`, `Report.text` — the report on a terminal of a given width.
-/

namespace Unimported.Report

/-- A piece of a line. -/
inductive Piece where
  /-- A change of style. -/
  | style (tag : String) : Piece
  /-- Text of the report itself. -/
  | fixed (text : String) : Piece
  /-- Text from the audit. -/
  | given (text : String) : Piece
  deriving DecidableEq, Repr

/-- A line of the report. -/
abbrev Line := List Piece

/-- The marked-up form of a piece. -/
def Piece.markup : Piece → List Char
  | .style tag => '[' :: tag.toList ++ [']']
  | .fixed text => text.toList
  | .given text => Markup.escape text.toList

/-- What a piece says. -/
def Piece.plain : Piece → List Char
  | .style _ => []
  | .fixed text | .given text => text.toList

/-- The marked-up form of a line. -/
def Line.markup (l : Line) : List Char := l.flatMap Piece.markup

/-- What a line says. -/
def Line.plain (l : Line) : List Char := l.flatMap Piece.plain

/-- The width of a rule. -/
def ruleWidth : Nat := 60

/-- A rule across the report. -/
def rule : Line := [.fixed (String.ofList (List.replicate ruleWidth '='))]

/-- An empty line. -/
def blank : Line := []

/-- The style and the mark of a status. -/
def statusStyle : Status → String × String
  | .unused => ("yellow", "!!")
  | .used => ("green", "ok")
  | .info => ("cyan", "--")

/-- The line of a remark; information is not about a file. -/
def remarkLine (r : Remark) : Line :=
  let (style, mark) := statusStyle r.status
  let start : Line := [.fixed ("   " ++ mark ++ " "), .style style]
  match r.status with
  | .info => start ++ [.given r.message, .style ("/" ++ style)]
  | _ => start ++ [.given r.file, .style ("/" ++ style), .fixed " - ", .given r.message]

/-- The lines of a section. -/
def sectionLines (number : Nat) (s : Section) : List Line :=
  blank :: [.style "bold cyan", .fixed (toString number ++ ". "), .given s.title,
    .style "/bold cyan"] :: s.remarks.map remarkLine

/-- The lines of a candidate. -/
def candidateLines (number : Nat) (c : Candidate) : List Line :=
  [[.fixed (toString number ++ ". "), .style "bold", .given c.file, .style "/bold"],
    [.fixed "   Type: ", .given c.label],
    [.fixed "   Reason: ", .given c.reason],
    blank]

/-- The lines of numbered things, from a number on. -/
def numbered {α : Type} (lines : Nat → α → List Line) : Nat → List α → List Line
  | _, [] => []
  | n, a :: as => lines n a ++ numbered lines (n + 1) as

/-- What is said when there are no candidates. -/
def successText : String := "No unused files found! All files appear to be in use."

/-- What is said at the end. -/
def notes : List String :=
  ["UI components from shadcn/ui are often unused until needed",
    "Some components might be used dynamically or conditionally",
    "Always verify before deleting any files!",
    "Check asset usage manually in component files"]

/-- A line in bold. -/
def boldLine (text : String) : Line := [.style "bold", .fixed text, .style "/bold"]

/-- The lines of the summary. -/
def summaryLines : List Candidate → List Line
  | [] => [[.style "bold green", .fixed successText, .style "/bold green"], blank]
  | candidates => numbered candidateLines 1 candidates

/-- The lines of a report. -/
def lines (sections : List Section) : List Line :=
  [boldLine "Analyzing Unused Frontend Files and Folders", rule] ++
    numbered sectionLines 1 sections ++
    [blank, rule, blank, boldLine "Summary of Potentially Unused Files:", blank] ++
    summaryLines (sections.flatMap Section.candidates) ++
    boldLine "Notes:" :: notes.map fun n => [.fixed "   - ", .given n]

/-- A line on a terminal of a given width that puts texts down by `say`. -/
def Line.printedBy (say : List Char → List Char) (width : Nat) (l : Line) : List Char :=
  Report.printed width (Markup.renderBy say l.markup)

/-- A line on a terminal of a given width. -/
def Line.printed (width : Nat) (l : Line) : List Char :=
  Report.printed width (Markup.render l.markup)

/-- The report on a terminal of a given width that puts texts down by `say`. -/
def textBy (say : List Char → List Char) (width : Nat) (sections : List Section) : String :=
  String.ofList ((lines sections).flatMap (Line.printedBy say width))

/-- The report on a terminal of a given width. -/
def text (width : Nat) (sections : List Section) : String :=
  String.ofList ((lines sections).flatMap (Line.printed width))

/-- The report without styles and without wrapping. -/
def plainText (sections : List Section) : String :=
  String.ofList ((lines sections).flatMap fun l => l.plain ++ ['\n'])

/-- The width at which a report is given as a text. -/
def textWidth : Nat := 200

/-- The width of the terminal. -/
def terminalWidth : Nat := 80

end Unimported.Report
