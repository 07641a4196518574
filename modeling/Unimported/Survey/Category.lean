import Unimported.Settings.Basic

/-!
# Categories of source files

A file belongs to the category of the directory that holds it directly; what lies deeper belongs
to none.  When two categories share a directory, pages go before hooks and hooks before shared
components.

## Main definitions

* `Category`, `Category.ofPath` — the categories, and that of a file.
* `SourceFile` — a file with its category.
-/

namespace Unimported

/-- The categories of source files. -/
inductive Category where
  /-- A shared component. -/
  | component : Category
  /-- A hook. -/
  | hook : Category
  /-- A page. -/
  | page : Category
  /-- Any other file. -/
  | other : Category
  deriving DecidableEq, Repr, Inhabited

namespace Category

/-- The name of a category. -/
def name : Category → String
  | component => "ui-component"
  | hook => "hook"
  | page => "page"
  | other => "other"

/-- A text without the slashes around it. -/
def trimSlashes (s : String) : String :=
  String.ofList
    ((s.toList.dropWhile (· = '/')).reverse.dropWhile (· = '/')).reverse

/-- The category of a directory, named from the source root. -/
def ofDirectory (s : Settings) (dir : String) : Category :=
  if dir = trimSlashes s.pagesDir then page
  else if dir = trimSlashes s.hooksDir then hook
  else if dir = trimSlashes s.uiDir then component
  else other

/-- The category of a file below a source root; outside of it there is none. -/
def ofPath (s : Settings) (root p : Path) : Category :=
  match p.parent.relativeTo? root with
  | none => other
  | some segments => ofDirectory s (Path.relativeText segments)

end Category

/-- A file with its category. -/
structure SourceFile where
  /-- Where the file was found. -/
  path : Path
  /-- The category of the directory that holds it. -/
  category : Category
  deriving DecidableEq, Repr, Inhabited

namespace SourceFile

/-- The file name. -/
def name (f : SourceFile) : String := f.path.name

/-- The file name without its suffix. -/
def stem (f : SourceFile) : String := f.path.stem

/-- A file with the category that it has below a source root. -/
def ofPath (s : Settings) (root p : Path) : SourceFile := ⟨p, .ofPath s root p⟩

end SourceFile

end Unimported
