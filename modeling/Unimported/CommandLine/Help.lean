import Unimported.Report.Template

/-!
# The help page

The help page says what the command is for and shows its options in a framed table.  It is always
written for a terminal of the usual width, and each of its lines fills that width.

## Main definitions

* `CommandLine.Help.Row`, `CommandLine.Help.rows` — the table of options.
* `CommandLine.Help.page` — the page.
-/

namespace Unimported.CommandLine.Help

/-- What the table says of an option. -/
structure Row where
  /-- The long name. -/
  name : String
  /-- The letter with its dash, if the option has one. -/
  letter : String := ""
  /-- What kind of value the option takes, if it takes one. -/
  value : String := ""
  /-- What the option does, line by line. -/
  description : List String

/-- The options in the order of the table. -/
def rows : List Row :=
  [{ name := "--root", letter := "-C", value := "DIRECTORY",
     description := ["Frontend project root (the directory holding", "src/)", "[default: .]"] },
   { name := "--verbose", letter := "-v", description := ["Enable verbose (DEBUG) logging"] },
   { name := "--quiet", letter := "-q", description := ["Suppress all but ERROR logging"] },
   { name := "--version", description := ["Show version and exit"] },
   { name := "--help", description := ["Show this message and exit."] }]

/-- What the page says in front of the table. -/
def introduction : List String :=
  ["", " Usage: ui-sweep [OPTIONS]",
   "", " List frontend files that look unused.",
   "", " Findings never change the exit status: the report is advisory.",
   "", " Examples:", "", "   ui-sweep", "", "   ui-sweep -C ../frontend --verbose", ""]

/-- A text filled up with blanks. -/
def pad (width : Nat) (s : String) : String :=
  s ++ String.ofList (List.replicate (width - s.length) ' ')

/-- A line of the frame: its corners, and what stands at its start between them. -/
def border (left right start : String) : String :=
  left ++ start ++ String.ofList (List.replicate (Report.terminalWidth - 2 - start.length) '─') ++
    right

/-- A line in the frame. -/
def framed (s : String) : String := "│" ++ pad (Report.terminalWidth - 2) (" " ++ s) ++ "│"

/-- The columns of a row in front of its description. -/
def columns (name letter value : String) : String := pad 11 name ++ pad 8 letter ++ pad 11 value

/-- The lines of a row. -/
def Row.lines (r : Row) : List String :=
  match r.description with
  | [] => [framed (columns r.name r.letter r.value)]
  | first :: more =>
      framed (columns r.name r.letter r.value ++ first) ::
        more.map fun s => framed (columns "" "" "" ++ s)

/-- The table of options. -/
def table : List String :=
  border "╭" "╮" "─ Options " :: rows.flatMap Row.lines ++ [border "╰" "╯" ""]

/-- The page, with an empty line at its end. -/
def page : String :=
  String.join ((introduction.map (pad Report.terminalWidth) ++ table ++ [""]).map (· ++ "\n"))

end Unimported.CommandLine.Help
