import Unimported.Check.Run
import Unimported.Settings.Request

/-!
# Audits

An audit surveys the sources of a project and then runs its checks on the finished survey.  It
reads and lists; it never writes.

## Main definitions

* `Audit`, `Audit.candidates` — the result of an audit.
* `Audit.ofSettings` — the audit of a project with given settings.
* `Audit.ofProject` — the audit of a project, whose settings are loaded first.
-/

namespace Unimported

/-- The result of an audit. -/
structure Audit where
  /-- A section for each check. -/
  sections : List Section
  /-- How many files the walk found. -/
  filesWalked : Nat
  /-- How many of them are source files. -/
  filesScanned : Nat
  /-- How many targets are in use. -/
  pathsInUse : Nat
  deriving DecidableEq, Repr, Inhabited

namespace Audit

/-- All candidates for removal, in the order of the sections. -/
def candidates (a : Audit) : List Candidate := a.sections.flatMap Section.candidates

/-- The record of a section. -/
def sectionText (c : Check) (s : Section) : String :=
  c.name ++ ": " ++ toString s.candidates.length ++ " candidates, " ++
    toString s.remarks.length ++ " observations"

/-- Run a check and write down how much it gave. -/
def runCheck (x : Scene) (c : Check) : Traced Section := do
  let s ← c.run x
  .note .debug .audit (sectionText c s)
  return s

/-- Run checks one after another. -/
def runChecks (x : Scene) : List Check → Traced (List Section)
  | [] => .done []
  | c :: cs => do
      let s ← runCheck x c
      let ss ← runChecks x cs
      return s :: ss

/-- The source root of a project. -/
def sourceRoot (root : Path) (s : Settings) : Path := root.joinText s.sourceDir

/-- The audit below a source root. -/
def ofSource (fs : FileSystem) (source : Path) (s : Settings) (checks : List Check) :
    Traced Audit := do
  .note .info .audit ("Sweeping " ++ source.text)
  let survey ← Survey.make fs source s
  let sections ← runChecks ⟨fs, s, survey⟩ checks
  let scanned ← .ofFault (s.sourceExtensions.select SourceFile.name survey.files)
  return ⟨sections, survey.files.length, scanned.length, survey.used.size⟩

/-- The audit of the project at a canonical root. -/
def ofRoot (fs : FileSystem) (root : Path) (s : Settings) (checks : List Check) :
    Traced Audit := do
  let source := sourceRoot root s
  if ← .ofFault (fs.isDirectory source) then ofSource fs source s checks
  else .stop (.problem (.noSource source "source directory not found"))

/-- The audit of a project with given settings. -/
def ofSettings (fs : FileSystem) (root : Path) (s : Settings) (checks : List Check) :
    Traced Audit := do
  let root ← .ofFault (fs.resolve root)
  ofRoot fs root s checks

/-- The audit of a project, whose settings are loaded first. -/
def ofProject (fs : FileSystem) (root : Path) (overrides : List (String × Value))
    (checks : List Check) : Traced Audit := do
  let root ← .ofFault (fs.resolve root)
  let s ← .ofExcept (Settings.request fs (some (some root)) none overrides)
  ofRoot fs root s checks

end Audit

end Unimported
