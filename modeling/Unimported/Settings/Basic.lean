import Unimported.Journal
import Unimported.Text.Blank
import Unimported.Value.Table

/-!
# Settings

The settings describe how a frontend project is laid out: where its sources are, which file puts
the application together, in which directories the shared components, the hooks and the pages
stand.  They are built from a table of values, and only from values that make sense: names are
texts that are not blank and stay inside the project, and extensions start with a dot.

## Main definitions

* `Field` — the settings by name.
* `Extensions` — the values that name extensions.
* `Settings`, `Settings.default` — the settings of an audit.
* `Settings.ofTable` — the settings that a table gives.
* `Settings.value`, `Settings.shown` — the settings as values again.
-/

namespace Unimported

/-- The settings by name. -/
inductive Field where
  /-- The source root, from the project root. -/
  | sourceDir : Field
  /-- The file that puts the application together, from the source root. -/
  | entryFile : Field
  /-- The extensions of files that are read for imports. -/
  | sourceExtensions : Field
  /-- The names of directories that are not entered. -/
  | skipDirs : Field
  /-- The directory of shared components. -/
  | uiDir : Field
  /-- The directory of hooks. -/
  | hooksDir : Field
  /-- The directory of pages. -/
  | pagesDir : Field
  /-- The directory of assets. -/
  | assetsDir : Field
  /-- The stylesheet that the entry file should import. -/
  | stylesheet : Field
  /-- The name of a file that may stand both with the hooks and with the components. -/
  | duplicateName : Field
  /-- The extensions of page files. -/
  | pageExtensions : Field
  /-- How much of the journal is shown. -/
  | verbosity : Field
  deriving DecidableEq, Repr, Inhabited

namespace Field

/-- The name under which a setting is given. -/
def key : Field → String
  | sourceDir => "source_dir"
  | entryFile => "entry_file"
  | sourceExtensions => "source_extensions"
  | skipDirs => "skip_dirs"
  | uiDir => "ui_dir"
  | hooksDir => "hooks_dir"
  | pagesDir => "pages_dir"
  | assetsDir => "assets_dir"
  | stylesheet => "stylesheet"
  | duplicateName => "duplicate_name"
  | pageExtensions => "page_extensions"
  | verbosity => "verbosity"

/-- All settings, in the order in which they are shown. -/
def all : List Field :=
  [sourceDir, entryFile, sourceExtensions, skipDirs, uiDir, hooksDir, pagesDir, assetsDir,
    stylesheet, duplicateName, pageExtensions, verbosity]

/-- The names of all settings. -/
def keys : List String := all.map key

/-- The value of a setting that is not given. -/
def default : Field → Value
  | sourceDir => .text "src"
  | entryFile => .text "App.tsx"
  | sourceExtensions => .texts [".ts", ".tsx"]
  | skipDirs => .texts ["node_modules"]
  | uiDir => .text "components/ui"
  | hooksDir => .text "hooks"
  | pagesDir => .text "pages"
  | assetsDir => .text "assets"
  | stylesheet => .text "App.css"
  | duplicateName => .text "use-toast.ts"
  | pageExtensions => .texts [".tsx"]
  | verbosity => .text "normal"

theorem key_mem_keys (f : Field) : f.key ∈ keys := by cases f <;> decide

end Field

/-- The values that name extensions.  What counts is that going through the value gives texts that
start with a dot; besides a sequence of texts, this is so for a text of dots and for a table whose
names start with dots. -/
inductive Extensions where
  /-- A sequence of extensions. -/
  | listed (suffixes : List String) : Extensions
  /-- A text of dots. -/
  | dots (text : String) : Extensions
  /-- A table named by extensions. -/
  | keyed (entries : List (String × Value)) : Extensions
  deriving Inhabited

namespace Extensions

/-- The value that was given. -/
def value : Extensions → Value
  | listed suffixes => .texts suffixes
  | dots s => .text s
  | keyed entries => .table entries

/-- The extensions that going through the value gives. -/
def suffixes : Extensions → List String
  | listed suffixes => suffixes
  | dots s => s.toList.map String.singleton
  | keyed entries => entries.map Prod.fst

/-- How a name is tested for ending in the value as a whole; a table is no ending. -/
def ending? : Extensions → Option (String → Bool)
  | listed suffixes => some fun name => suffixes.any fun s => Text.closes s name
  | dots s => some (Text.closes s)
  | keyed _ => none

/-- The names of a list that end in the value as a whole. -/
def select {α : Type} (x : Extensions) (name : α → String) (as : List α) : Except Fault (List α) :=
  match x.ending? with
  | some test => .ok (as.filter fun a => test (name a))
  | none => if as.isEmpty then .ok [] else .error .notSuffix

end Extensions

/-- The settings of an audit. -/
structure Settings where
  /-- The source root, from the project root. -/
  sourceDir : String
  /-- The file that puts the application together, from the source root. -/
  entryFile : String
  /-- The extensions of files that are read for imports. -/
  sourceExtensions : Extensions
  /-- The names of directories that are not entered. -/
  skipDirs : Value
  /-- The directory of shared components. -/
  uiDir : String
  /-- The directory of hooks. -/
  hooksDir : String
  /-- The directory of pages. -/
  pagesDir : String
  /-- The directory of assets. -/
  assetsDir : String
  /-- The stylesheet that the entry file should import. -/
  stylesheet : String
  /-- The name of a file that may stand both with the hooks and with the components. -/
  duplicateName : String
  /-- The extensions of page files. -/
  pageExtensions : Extensions
  /-- How much of the journal is shown. -/
  verbosity : Verbosity
  deriving Inhabited

namespace Settings

/-! ### Accepting values -/

/-- What stops a run when a setting cannot have a value; a value that has no written form cannot
even be told. -/
def rejection (key : String) (v : Value) (reason : String) : Failure :=
  match v.shown with
  | .ok value => .problem (.setting key value reason)
  | .error fault => .fault fault

/-- Refuse the value of a setting. -/
def reject {α : Type} (f : Field) (v : Value) (reason : String) : Except Failure α :=
  .error (rejection f.key v reason)

/-- The name that a value gives. -/
def acceptName (f : Field) (v : Value) : Except Failure String :=
  match v with
  | .text s =>
      if Text.allBlank s then reject f v "must be a non-empty string"
      else if Text.opens "/" s || s.toList.contains '\\' then
        reject f v "must be a relative POSIX path"
      else .ok s
  | _ => reject f v "must be a non-empty string"

/-- The text of a value that is one and starts with a dot. -/
def dotted? (v : Value) : Option String := v.text?.filter (Text.opens ".")

/-- The extensions that a value gives. -/
def acceptExtensions (f : Field) (v : Value) : Except Failure Extensions :=
  let refused := reject f v "must list extensions like '.tsx'"
  if v.isTrue then
    match v with
    | .text s => if s.toList.all (· = '.') then .ok (.dots s) else refused
    | .list items | .tuple items =>
        match items.mapM dotted? with
        | some suffixes => .ok (.listed suffixes)
        | none => refused
    | .table entries =>
        if entries.all fun e => Text.opens "." e.1 then .ok (.keyed entries) else refused
    | _ => .error (.fault .notItems)
  else refused

/-- The verbosity that a value gives. -/
def acceptVerbosity (v : Value) : Except Failure Verbosity :=
  match v.text?.bind Verbosity.ofName? with
  | some verbosity => .ok verbosity
  | none => reject .verbosity v "expected quiet/normal/verbose"

/-- The value of a setting in a table. -/
def given (t : Table) (f : Field) : Value := (Table.get? t f.key).getD f.default

/-- The settings that a table gives; the others keep their defaults.  Names are looked at first,
then extensions, then the verbosity. -/
def ofTable (t : Table) : Except Failure Settings :=
  match (Table.names t).find? fun name => !Field.keys.contains name with
  | some name => .error (.fault (.unknownField name))
  | none => do
      let name (f : Field) := acceptName f (given t f)
      let extensions (f : Field) := acceptExtensions f (given t f)
      let sourceDir ← name .sourceDir
      let entryFile ← name .entryFile
      let uiDir ← name .uiDir
      let hooksDir ← name .hooksDir
      let pagesDir ← name .pagesDir
      let assetsDir ← name .assetsDir
      let stylesheet ← name .stylesheet
      let duplicateName ← name .duplicateName
      let sourceExtensions ← extensions .sourceExtensions
      let pageExtensions ← extensions .pageExtensions
      let verbosity ← acceptVerbosity (given t .verbosity)
      return { sourceDir, entryFile, uiDir, hooksDir, pagesDir, assetsDir, stylesheet,
               duplicateName, sourceExtensions, pageExtensions, verbosity,
               skipDirs := given t .skipDirs }

/-- The settings that nothing was said about. -/
def default : Settings where
  sourceDir := "src"
  entryFile := "App.tsx"
  sourceExtensions := .listed [".ts", ".tsx"]
  skipDirs := .texts ["node_modules"]
  uiDir := "components/ui"
  hooksDir := "hooks"
  pagesDir := "pages"
  assetsDir := "assets"
  stylesheet := "App.css"
  duplicateName := "use-toast.ts"
  pageExtensions := .listed [".tsx"]
  verbosity := .normal

/-! ### Showing settings -/

/-- The value of a setting. -/
def value (s : Settings) : Field → Value
  | .sourceDir => .text s.sourceDir
  | .entryFile => .text s.entryFile
  | .sourceExtensions => s.sourceExtensions.value
  | .skipDirs => s.skipDirs
  | .uiDir => .text s.uiDir
  | .hooksDir => .text s.hooksDir
  | .pagesDir => .text s.pagesDir
  | .assetsDir => .text s.assetsDir
  | .stylesheet => .text s.stylesheet
  | .duplicateName => .text s.duplicateName
  | .pageExtensions => s.pageExtensions.value
  | .verbosity => .text s.verbosity.name

/-- A setting with its value. -/
def shownField (s : Settings) (f : Field) : Except Fault String :=
  return f.key ++ "=" ++ (← (s.value f).shown)

/-- The settings with their values, for the journal. -/
def shown (s : Settings) : Except Fault String :=
  return "SweepConfig(" ++ ", ".intercalate (← Field.all.mapM s.shownField) ++ ")"

/-- The last name of the component directory; alias paths may keep only this much of it. -/
def uiLeaf (s : Settings) : String :=
  let cs := s.uiDir.toList.reverse.dropWhile (· = '/')
  String.ofList (cs.takeWhile (· != '/')).reverse

theorem acceptName_text {f : Field} {s : String} (hb : Text.allBlank s = false)
    (hs : (Text.opens "/" s || s.toList.contains '\\') = false) :
    acceptName f (.text s) = .ok s := by
  simp only [acceptName, hb, hs, Bool.false_eq_true, if_false]

/-- Nothing said, nothing changed. -/
theorem ofTable_nil : ofTable [] = .ok default := by
  have n₁ (f : Field) : acceptName f (.text "src") = .ok "src" :=
    acceptName_text (by decide +kernel) (by decide +kernel)
  have n₂ (f : Field) : acceptName f (.text "App.tsx") = .ok "App.tsx" :=
    acceptName_text (by decide +kernel) (by decide +kernel)
  have n₃ (f : Field) : acceptName f (.text "components/ui") = .ok "components/ui" :=
    acceptName_text (by decide +kernel) (by decide +kernel)
  have n₄ (f : Field) : acceptName f (.text "hooks") = .ok "hooks" :=
    acceptName_text (by decide +kernel) (by decide +kernel)
  have n₅ (f : Field) : acceptName f (.text "pages") = .ok "pages" :=
    acceptName_text (by decide +kernel) (by decide +kernel)
  have n₆ (f : Field) : acceptName f (.text "assets") = .ok "assets" :=
    acceptName_text (by decide +kernel) (by decide +kernel)
  have n₇ (f : Field) : acceptName f (.text "App.css") = .ok "App.css" :=
    acceptName_text (by decide +kernel) (by decide +kernel)
  have n₈ (f : Field) : acceptName f (.text "use-toast.ts") = .ok "use-toast.ts" :=
    acceptName_text (by decide +kernel) (by decide +kernel)
  have d₁ : dotted? (.text ".ts") = some ".ts" := by decide +kernel
  have d₂ : dotted? (.text ".tsx") = some ".tsx" := by decide +kernel
  simp [ofTable, given, Field.default, Table.names, n₁, n₂, n₃, n₄, n₅, n₆, n₇, n₈,
    acceptExtensions, acceptVerbosity, Value.texts, Value.isTrue, d₁, d₂, Value.text?,
    Verbosity.ofName?, default, bind, Except.bind, pure, Except.pure]

end Settings

end Unimported
