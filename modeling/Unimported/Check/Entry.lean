import Unimported.Check.Basic

/-!
# Checks against the entry file

The entry file puts the application together.  Pages, the stylesheet and a file that stands twice
are judged by its text alone: what the text mentions is in use.  Without the text there is no
verdict.

## Main definitions

* `Check.pageSection` — pages that the entry file does not mention.
* `Check.duplicateSection` — a file that stands with the hooks and with the components.
* `Check.stylesheetSection` — a stylesheet that the entry file does not mention.
-/

namespace Unimported.Check

/-- Pages that the entry file does not mention by their stem. -/
def pageSection (x : Scene) : Traced Section := do
  let empty : Section := ⟨pages.name, "Checking Pages...", [], []⟩
  let files ← .ofFault (x.survey.filesIn .page x.settings.pageExtensions)
  if files.isEmpty then return empty
  match ← x.entryText with
  | none => return empty
  | some text =>
      let isUsed (f : SourceFile) := Text.occursIn f.stem text
      let entry := x.settings.entryFile
      return { empty with
        remarks := files.map fun f =>
          if isUsed f then ⟨f.name, .used, "is used in routes"⟩
          else ⟨f.name, .unused, "NOT used in " ++ entry ++ " routes"⟩
        candidates := (files.filter fun f => !isUsed f).map fun f =>
          ⟨x.settings.pagesDir ++ "/" ++ f.name, "Page", "Not used in " ++ entry ++ " routes"⟩ }

/-- The texts by which the entry file imports a module of a directory. -/
def importTexts (dir module : String) : List String :=
  [Resolver.aliasMark ++ dir ++ "/" ++ module, "./" ++ dir ++ "/" ++ module]

/-- A file that stands with the hooks and with the components.  The copy that the entry file
imports is in use and the other may be removed; the hooks are asked first. -/
def duplicateSection (x : Scene) : Traced Section := do
  let s := x.settings
  let hooksFile := s.hooksDir ++ "/" ++ s.duplicateName
  let uiFile := s.uiDir ++ "/" ++ s.duplicateName
  let empty : Section := ⟨duplicate.name, "Checking for Duplicate Files...", [], []⟩
  if !(← x.hasFile hooksFile) then return empty
  if !(← x.hasFile uiFile) then return empty
  let found : Remark := ⟨s.duplicateName, .info, "Duplicate found: " ++ hooksFile ++ ", " ++ uiFile⟩
  match ← x.entryText with
  | none => return { empty with remarks := [found] }
  | some text =>
      let module := (Path.ofString s.duplicateName).stem
      let imports (dir : String) := (importTexts dir module).any fun t => Text.occursIn t text
      if imports s.hooksDir then
        return { empty with
          remarks := [found, ⟨hooksFile, .used, "is being used"⟩]
          candidates := [⟨uiFile, "Duplicate",
            "Duplicate of " ++ hooksFile ++ " (hooks version is used)"⟩] }
      else if imports s.uiDir then
        return { empty with
          remarks := [found, ⟨uiFile, .used, "is being used"⟩]
          candidates := [⟨hooksFile, "Duplicate",
            "Duplicate of " ++ uiFile ++ " (components version is used)"⟩] }
      else return { empty with remarks := [found] }

/-- A stylesheet that the entry file does not mention. -/
def stylesheetSection (x : Scene) : Traced Section := do
  let sheet := x.settings.stylesheet
  let entry := x.settings.entryFile
  let empty : Section := ⟨stylesheet.name, "Checking " ++ sheet ++ "...", [], []⟩
  if !(← x.hasFile sheet) then return empty
  match ← x.entryText with
  | none => return empty
  | some text =>
      if Text.occursIn sheet text then
        return { empty with remarks := [⟨sheet, .used, "is imported"⟩] }
      else
        return { empty with
          remarks := [⟨sheet, .unused, "is NOT imported in " ++ entry⟩]
          candidates := [⟨sheet, "Stylesheet", "Not imported in " ++ entry⟩] }

end Unimported.Check
