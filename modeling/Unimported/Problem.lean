import Unimported.Fault
import Unimported.Path.Basic

/-!
# What can go wrong

An audit reports its own *problems*: a file that cannot be read, a directory that cannot be
listed, a project without a source root, a setting that makes no sense.  A problem has a message
and named details, and its kind belongs to a wider kind.  Everything else that can stop a run is
a fault.

## Main definitions

* `Problem`, `Problem.message`, `Problem.details`, `Problem.text` — the problems and their wording.
* `Problem.Kind`, `Problem.Kind.ancestry` — the kinds, each with the wider ones.
* `Failure` — a problem or a fault.
-/

namespace Unimported

/-- A problem that an audit reports. -/
inductive Problem where
  /-- A file cannot be read. -/
  | file (path : Path) (reason : String) : Problem
  /-- A directory cannot be listed. -/
  | directory (path : Path) (reason : String) : Problem
  /-- The audit cannot start. -/
  | configuration (message : String) : Problem
  /-- A settings file breaks the rules of its format. -/
  | malformed (path : Path) (reason : String) : Problem
  /-- There is no source root. -/
  | noSource (path : Path) (reason : String) : Problem
  /-- A setting is unknown, or its value, in its written form, makes no sense. -/
  | setting (key value reason : String) : Problem
  deriving DecidableEq, Repr, Inhabited

namespace Problem

/-- The kinds of problems. -/
inductive Kind where
  /-- Any problem. -/
  | general : Kind
  /-- A problem with what is scanned. -/
  | analysis : Kind
  /-- A file cannot be read. -/
  | file : Kind
  /-- A directory cannot be listed. -/
  | directory : Kind
  /-- The audit cannot start. -/
  | configuration : Kind
  /-- There is no source root. -/
  | noSource : Kind
  /-- A setting is unknown, or its value makes no sense. -/
  | setting : Kind
  deriving DecidableEq, Repr, Inhabited

/-- The name under which a kind is reported. -/
def Kind.name : Kind → String
  | .general => "UISweepError"
  | .analysis => "AnalysisError"
  | .file => "FileAccessError"
  | .directory => "DirectoryAccessError"
  | .configuration => "ConfigurationError"
  | .noSource => "InvalidPathError"
  | .setting => "InvalidConfigError"

/-- A kind with all wider ones, the widest last. -/
def Kind.ancestry : Kind → List Kind
  | .general => [.general]
  | .analysis => [.analysis, .general]
  | .file => [.file, .analysis, .general]
  | .directory => [.directory, .analysis, .general]
  | .configuration => [.configuration, .general]
  | .noSource => [.noSource, .configuration, .general]
  | .setting => [.setting, .configuration, .general]

/-- All kinds. -/
def Kind.all : List Kind :=
  [.general, .analysis, .file, .directory, .configuration, .noSource, .setting]

/-- The kind that is reported under a name. -/
def Kind.ofName? (name : String) : Option Kind := Kind.all.find? fun k => k.name = name

/-- The kind of a problem. -/
def kind : Problem → Kind
  | file .. => .file
  | directory .. => .directory
  | configuration .. | malformed .. => .configuration
  | noSource .. => .noSource
  | setting .. => .setting

/-- What is said of a settings file that cannot be used. -/
def unusableText (path : Path) (reason : String) : String :=
  "Invalid config file '" ++ path.text ++ "': " ++ reason

/-- The message of a problem. -/
def message : Problem → String
  | configuration message => message
  | file path _ => "Cannot access file: " ++ path.text
  | directory path _ => "Cannot list directory: " ++ path.text
  | noSource path reason => "Cannot sweep " ++ path.text ++ ": " ++ reason
  | setting key value reason =>
      "Bad ui-sweep setting " ++ key ++ " = " ++ value ++ ": " ++ reason
  | malformed path reason => unusableText path reason

/-- The named details of a problem. -/
def details : Problem → List (String × String)
  | file path reason => [("filepath", path.text), ("reason", reason)]
  | directory path reason => [("dirpath", path.text), ("reason", reason)]
  | noSource path _ => [("path", path.text)]
  | setting key _ reason => [("key", key), ("reason", reason)]
  | configuration .. | malformed .. => []

/-- Details as they stand behind a message. -/
def detailsText (details : List (String × String)) : String :=
  " (" ++ ", ".intercalate (details.map fun d => d.1 ++ "=" ++ d.2) ++ ")"

/-- The message with the details behind it. -/
def text (p : Problem) : String :=
  if p.details.isEmpty then p.message else p.message ++ detailsText p.details

/-- A settings file that was asked for is not there. -/
def missingSettings (path : Path) : Problem :=
  configuration ("Config file not found: " ++ path.text)

/-- A settings file cannot be used. -/
def badSettingsFile (path : Path) (reason : String) : Problem :=
  configuration (unusableText path reason)

theorem kind_mem_ancestry (k : Kind) : k ∈ k.ancestry := by cases k <;> decide

theorem general_mem_ancestry (k : Kind) : Kind.general ∈ k.ancestry := by cases k <;> decide

theorem ofName?_name (k : Kind) : Kind.ofName? k.name = some k := by cases k <;> decide +kernel

end Problem

/-- What stops a run. -/
inductive Failure where
  /-- A problem that the audit reports. -/
  | problem (p : Problem) : Failure
  /-- Anything else. -/
  | fault (f : Fault) : Failure
  deriving DecidableEq, Repr, Inhabited

end Unimported
