import Unimported.FileSystem
import Unimported.Settings.Basic
import Unimported.Text.Utf8
import Unimported.Toml.Document

/-!
# Loading settings

Settings come from four places, each of which decides over those before it: the defaults, the
settings file in the project root, a settings file that the caller names, and the values that the
caller gives.  Two flags stand for a verbosity.  A name that no setting has is refused before any
value is looked at.

## Main definitions

* `Settings.ofFile` — the table of a settings file.
* `Settings.applyFlag`, `Settings.applyFlags` — the flags among the caller's values.
* `Settings.combine` — the settings that three tables give.
* `Settings.load` — the settings of a project.
-/

namespace Unimported.Settings

/-- The name of the settings file in a project root. -/
def fileName : String := "ui-sweep.toml"

/-- The table of a settings file that holds the settings, if it has one of that name. -/
def tableName : String := "ui-sweep"

/-- The settings in the text of a file: those of the table of that name, or else all of it. -/
def ofText (path : Path) (text : List Char) : Except Failure Table :=
  match Toml.read text with
  | .error (.flawed flaw left) => .error (.problem (.malformed path (Toml.explain text flaw left)))
  | .error .longNumeral => .error (.fault .longNumeral)
  | .error .tooDeep => .error (.fault .tooDeep)
  | .ok data =>
      match Table.get? data tableName with
      | none => .ok data
      | some (.table t) => .ok t
      | some _ => .error (.problem (.badSettingsFile path "[ui-sweep] must be a table"))

/-- The settings in a file. -/
def ofFile (fs : FileSystem) (path : Path) : Except Failure Table :=
  match fs.read path with
  | .error e => .error (e.failure fun e => .badSettingsFile path (e.text path))
  | .ok bytes =>
      match Text.Utf8.decode? bytes with
      | none => .error (.fault .notUtf8)
      | some text => ofText path text

/-- The table without a name. -/
def without (t : Table) (name : String) : Table := t.filter fun e => e.1 != name

/-- Let a flag stand for a verbosity when its value counts as true; the flag itself is dropped. -/
def applyFlag (flag : String) (v : Verbosity) (t : Table) : Table :=
  match Table.get? t flag with
  | none => t
  | some x =>
      without (if x.isTrue then Table.set t Field.verbosity.key (.text v.name) else t) flag

/-- Let both flags stand for a verbosity; being quiet wins. -/
def applyFlags (t : Table) : Table := applyFlag "quiet" .quiet (applyFlag "verbose" .verbose t)

/-- A sequence as a setting keeps it. -/
def kept : Value → Value
  | .list items => .tuple items
  | v => v

/-- The settings that a project's table, a named file's table and a caller's values give. -/
def combine (project named : Table) (overrides : List (String × Value)) : Except Failure Settings :=
  let merged := Table.merge (Table.merge project named) (applyFlags (Table.ofList overrides))
  match merged.find? fun e => !Field.keys.contains e.1 with
  | some (name, v) => .error (rejection name v "unknown setting")
  | none => ofTable (merged.map fun e => (e.1, kept e.2))

/-- Whether a settings file is there. -/
def isThere (fs : FileSystem) (path : Path) : Except Failure Bool :=
  (fs.present path).mapError Failure.fault

/-- The table of the settings file in a project root; none when there is no such file. -/
def ofProject (fs : FileSystem) (root : Path) : Except Failure Table := do
  let path := root.child fileName
  if ← isThere fs path then ofFile fs path else return []

/-- The table of a settings file that must be there. -/
def ofNamed (fs : FileSystem) (path : Path) : Except Failure Table := do
  if ← isThere fs path then ofFile fs path else throw (.problem (.missingSettings path))

/-- The settings of a project. -/
def load (fs : FileSystem) (root file : Option Path) (overrides : List (String × Value)) :
    Except Failure Settings := do
  let project ← (root.map (ofProject fs)).getD (.ok [])
  let named ← (file.map (ofNamed fs)).getD (.ok [])
  combine project named overrides

end Unimported.Settings
