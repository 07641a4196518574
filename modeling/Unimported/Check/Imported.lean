import Unimported.Check.Basic

/-!
# Components and hooks

A shared component or a hook is in use when the path of its module, named from the source root
without its suffix, occurs in some target.  For components the last name of their directory will
do, because alias paths may keep only this much.  Of components only those not in use are
remarked on; of hooks both.

## Main definitions

* `Check.componentSection` — components that nothing imports.
* `Check.hookSection` — hooks that nothing imports.
-/

namespace Unimported.Check

/-- Why a file that nothing imports may be removed. -/
def notImported : String := "Not imported in any file"

/-- The texts that tell of a component in use. -/
def componentNeedles (s : Settings) (f : SourceFile) : List String :=
  [s.uiDir ++ "/" ++ f.stem, s.uiLeaf ++ "/" ++ f.stem]

/-- The texts that tell of a hook in use. -/
def hookNeedles (s : Settings) (f : SourceFile) : List String := [s.hooksDir ++ "/" ++ f.stem]

/-- The remark on a file that nothing imports. -/
def unusedRemark (f : SourceFile) : Remark := ⟨f.name, .unused, "NOT imported anywhere"⟩

/-- The remark on a file that is imported. -/
def usedRemark (f : SourceFile) : Remark := ⟨f.name, .used, "is being used"⟩

/-- The files whose needles occur in no target. -/
def unusedFiles (used : StringSet) (needles : SourceFile → List String) (files : List SourceFile) :
    List SourceFile :=
  files.filter fun f => !Usage.containsAny used (needles f)

/-- Components that nothing imports. -/
def componentSection (x : Scene) : Except Fault Section := do
  let files ← x.survey.filesIn .component x.settings.sourceExtensions
  let unused := unusedFiles x.survey.used (componentNeedles x.settings) files
  return {
    check := components.name
    title := "Checking UI Components..."
    remarks := unused.map unusedRemark
    candidates := unused.map fun f =>
      ⟨x.settings.uiDir ++ "/" ++ f.name, "UI Component", notImported⟩ }

/-- Hooks that nothing imports. -/
def hookSection (x : Scene) : Except Fault Section := do
  let files ← x.survey.filesIn .hook x.settings.sourceExtensions
  let needles := hookNeedles x.settings
  return {
    check := hooks.name
    title := "Checking Hooks..."
    remarks := files.map fun f =>
      if Usage.containsAny x.survey.used (needles f) then usedRemark f else unusedRemark f
    candidates := (unusedFiles x.survey.used needles files).map fun f =>
      ⟨x.settings.hooksDir ++ "/" ++ f.name, "Hook", notImported⟩ }

end Unimported.Check
