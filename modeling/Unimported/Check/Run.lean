import Unimported.Check.Entry
import Unimported.Check.Imported

/-!
# Running checks

Assets are only counted: reading source files cannot show that an image or a font is not used.
The directory of assets is listed afresh, and it must be possible to list it.

## Main definitions

* `Check.assetSection` — the number of assets.
* `Check.run` — the section of any check.
-/

namespace Unimported.Check

/-- The number of assets. -/
def assetSection (x : Scene) : Except Failure Section := do
  let dir := x.settings.assetsDir
  let path := x.path dir
  let result (remarks : List Remark) : Section := ⟨assets.name, "Checking Assets...", remarks, []⟩
  if !(← (x.fs.isDirectory path).mapError Failure.fault) then return result []
  match x.fs.list path with
  | .error e => throw (Walk.unlistable path e)
  | .ok l => return result [
      ⟨dir, .info, "Found " ++ toString l.names.length ++ " asset files"⟩,
      ⟨dir, .info, "Asset usage requires manual checking in components"⟩]

/-- The section of a check. -/
def run (x : Scene) : Check → Traced Section
  | components => .ofFault (componentSection x)
  | hooks => .ofFault (hookSection x)
  | pages => pageSection x
  | duplicate => duplicateSection x
  | stylesheet => stylesheetSection x
  | assets => .ofExcept (assetSection x)

end Unimported.Check
