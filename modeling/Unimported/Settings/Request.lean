import Unimported.Settings.Load

/-!
# Requests for settings

A caller who gives all values by name may also name where settings come from: the project root and
a settings file.  A text names a project root.  A settings file has to be given as a path, so a
plain value can only say that there is none; anything else is noticed when the project's own
settings file has been read.  What is given directly cannot be given by name again, even if it is
given as none.

## Main definitions

* `Settings.request` — the settings that values ask for which are given by name.

## Main results

* `Settings.request_nil` — with nothing given by name, the settings are just loaded.
-/

namespace Unimported.Settings

/-- The name of the project root among values. -/
def rootKey : String := "project_root"

/-- The name of the settings file among values. -/
def fileKey : String := "config_file"

/-- Whether a table has a name. -/
def mentions (t : Table) (name : String) : Bool := (Table.get? t name).isSome

/-- Whether a table has nothing but the absence of a value under a name. -/
def givesNothing (t : Table) (name : String) : Bool := ((Table.get? t name).getD .null).isNull

/-- The project root that a value gives. -/
def rootOf (v : Value) : Except Failure (Option Path) :=
  match v with
  | .null => .ok none
  | .text s => .ok (some (.ofString s))
  | _ => .error (.fault .notText)

/-- The settings that values ask for which are given by name.  The project root and the settings
file may be given directly, each as a path or as none. -/
def request (fs : FileSystem) (root file : Option (Option Path)) (values : List (String × Value)) :
    Except Failure Settings := do
  let t := Table.ofList values
  if root.isSome && mentions t rootKey || file.isSome && mentions t fileKey then
    throw (.fault .givenTwice)
  let root ← ((Table.get? t rootKey).map rootOf).getD (.ok root.join)
  let overrides := without (without t rootKey) fileKey
  if givesNothing t fileKey then load fs root file.join overrides
  else
    let _ ← (root.map (ofProject fs)).getD (.ok [])
    throw (.fault .plainValue)

/-- With nothing given by name, the settings are just loaded. -/
@[simp] theorem request_nil (fs : FileSystem) (root file : Option (Option Path)) :
    request fs root file [] = load fs root.join file.join [] := by
  simp [request, mentions, givesNothing, Table.ofList, Table.merge, without, Value.isNull, bind,
    Except.bind]

end Unimported.Settings
