import Unimported.Survey.Basic

/-!
# Checks

A check looks at one part of a project and gives a *section* of the report: remarks on what it
saw, and candidates for removal.  The survey is shared by all checks and does not change; whether
a file exists and what the entry file says is asked afresh.

## Main definitions

* `Status`, `Remark`, `Candidate`, `Section` — what a check gives.
* `Check`, `Check.all` — the checks, in the order of the report.
* `Scene` — what a check looks at.
* `Scene.entryText` — the text of the entry file.
-/

namespace Unimported

/-- What a remark says of a file. -/
inductive Status where
  /-- It is used. -/
  | used : Status
  /-- It is not used. -/
  | unused : Status
  /-- Something else. -/
  | info : Status
  deriving DecidableEq, Repr, Inhabited

/-- The name of a status. -/
def Status.name : Status → String
  | .used => "used"
  | .unused => "unused"
  | .info => "info"

/-- The status of a name. -/
def Status.ofName (name : String) : Except Fault Status :=
  match [Status.used, .unused, .info].find? fun s => s.name = name with
  | some s => .ok s
  | none => .error (.unknownStatus name)

/-- What a check saw. -/
structure Remark where
  /-- The file. -/
  file : String
  /-- What is said of it. -/
  status : Status
  /-- The wording. -/
  message : String
  deriving DecidableEq, Repr, Inhabited

/-- A file that may be removed. -/
structure Candidate where
  /-- The file, from the source root. -/
  file : String
  /-- What kind of file it is. -/
  label : String
  /-- Why it may be removed. -/
  reason : String
  deriving DecidableEq, Repr, Inhabited

/-- What a check gives. -/
structure Section where
  /-- The name of the check. -/
  check : String
  /-- The title. -/
  title : String
  /-- What was seen. -/
  remarks : List Remark
  /-- What may be removed. -/
  candidates : List Candidate
  deriving DecidableEq, Repr, Inhabited

/-- The checks. -/
inductive Check where
  /-- Shared components that nothing imports. -/
  | components : Check
  /-- Hooks that nothing imports. -/
  | hooks : Check
  /-- Pages that the entry file does not mention. -/
  | pages : Check
  /-- A file that stands with the hooks and with the components. -/
  | duplicate : Check
  /-- A stylesheet that the entry file does not mention. -/
  | stylesheet : Check
  /-- The number of assets. -/
  | assets : Check
  deriving DecidableEq, Repr, Inhabited

namespace Check

/-- The name of a check. -/
def name : Check → String
  | components => "ui_component"
  | hooks => "hook"
  | pages => "page"
  | duplicate => "duplicate"
  | stylesheet => "stylesheet"
  | assets => "assets"

/-- All checks, in the order of the report. -/
def all : List Check := [components, hooks, pages, duplicate, stylesheet, assets]

/-- The check of a name. -/
def ofName? (name : String) : Option Check := all.find? fun c => c.name = name

theorem ofName?_name (c : Check) : ofName? c.name = some c := by cases c <;> decide +kernel

end Check

/-- What a check looks at. -/
structure Scene where
  /-- The files as they are now. -/
  fs : FileSystem
  /-- The settings. -/
  settings : Settings
  /-- The survey. -/
  survey : Survey

namespace Scene

/-- A path from the source root. -/
def path (x : Scene) (relative : String) : Path := x.survey.root.joinText relative

/-- Whether a file stands at a path from the source root. -/
def hasFile (x : Scene) (relative : String) : Traced Bool :=
  .ofFault (x.fs.isFile (x.path relative))

/-- The text of the entry file; none when it is missing or cannot be read. -/
def entryText (x : Scene) : Traced (Option String) := do
  if !(← x.hasFile x.settings.entryFile) then return none
  match Source.read x.fs (x.path x.settings.entryFile) with
  | .ok text => return some text
  | .error (.problem problem) =>
      .note .warning .checks
        ("Entry file unreadable, skipping entry-based checks: " ++ problem.text)
      return none
  | .error (.fault fault) => .stop (.fault fault)

end Scene

end Unimported
