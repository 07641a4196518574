import Unimported.Survey.Category
import Unimported.Survey.Usage
import Unimported.Walk

/-!
# Surveys

A survey holds all that the checks need to know of the sources: the files of the walk with their
categories, and the targets in use.  It is made once, before any check.  The targets can also be
gathered without a survey; then each file is read as soon as the walk finds it, so that of what is
wrong with the files and with the walk the first thing counts.

## Main definitions

* `Survey`, `Survey.make` — surveys, and how one is made.
* `Survey.filesIn` — the files of a category with given extensions.
* `Usage.ofFiles`, `Usage.below` — the targets that given files, and that the files below a root
  put into use.
-/

namespace Unimported

/-- What is known of the sources. -/
structure Survey where
  /-- The source root. -/
  root : Path
  /-- The files of the walk. -/
  files : List SourceFile
  /-- The targets in use. -/
  used : StringSet

namespace Survey

/-- Survey the sources below a root. -/
def make (fs : FileSystem) (root : Path) (s : Settings) : Traced Survey := do
  let paths ← Walk.traverse fs s.skipDirs root
  let used ← Usage.gather fs (.ofRoot fs.cwd root) (Usage.isSource s.sourceExtensions) paths
  return ⟨root, paths.map (SourceFile.ofPath s root), used⟩

/-- The files of a category. -/
def ofCategory (v : Survey) (c : Category) : List SourceFile :=
  v.files.filter fun f => f.category = c

/-- The files of a category with given extensions. -/
def filesIn (v : Survey) (c : Category) (x : Extensions) : Except Fault (List SourceFile) :=
  x.select SourceFile.name (v.ofCategory c)

end Survey

namespace Usage

/-- The extensions of files that are read unless a caller says otherwise. -/
def defaultExtensions : Value := Field.default .sourceExtensions

/-- The targets that given files put into use. -/
def ofFiles (fs : FileSystem) (root : Path) (extensions : Value) (files : List Path) :
    Traced StringSet := do
  let isSource ← .ofFault (isSourceFor extensions)
  gather fs (.ofRoot fs.cwd root) isSource files

/-- Go on through the stages of a walk. -/
def Tally.follow (fs : FileSystem) (r : Resolver) (isSource : String → Except Fault Bool) :
    Tally → List Walk.Stage → Traced Tally
  | t, [] => .done t
  | t, .listed l :: stages => do
      .write (Walk.listingRecord l)
      follow fs r isSource t stages
  | t, .found p :: stages => do follow fs r isSource (← t.add fs r isSource p) stages

/-- The targets that the files below a root put into use. -/
def below (fs : FileSystem) (root : Path) (extensions : Value) : Traced StringSet := do
  let isSource ← .ofFault (isSourceFor extensions)
  let trail := Walk.trail fs Walk.defaultSkip root
  let tally ← Tally.follow fs (.ofRoot fs.cwd root) isSource {} trail.stages
  match trail.stopped with
  | some failure => .stop failure
  | none => tally.close

end Usage

end Unimported
