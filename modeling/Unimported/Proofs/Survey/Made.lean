import Unimported.Proofs.Survey.Category
import Unimported.Proofs.Survey.Usage
import Unimported.Proofs.Tree.Linkless
import Unimported.Proofs.Walk.Stages

/-!
# Surveys that were made

A survey holds the files of a walk, in the order of the walk, and the targets that they put into
use.  What a check asks of it is a part of the walk: the files of a category that are read for
imports.  Each such file lies directly in the directory of its category, so that its setting with
the file name behind it leads back to the file.

## Main definitions

* `Survey.judged` — the walked files of a category that are read for imports.
* `Usage.Mentions` — a text occurs in some target.

## Main results

* `Survey.make_eq_ok` — the walk and the gathering behind a survey.
* `Survey.filesIn_make` — the files that a check asks a survey for are the judged ones.
* `Survey.joinText_of_mem_judged` — the path of a judged file, written with a setting.
-/

namespace Unimported

namespace Usage

/-- A text occurs in some target. -/
def Mentions (used : StringSet) (needle : String) : Prop :=
  ∃ target ∈ used, needle.toList <:+: target.toList

theorem containsAny_singleton {used : StringSet} {needle : String} :
    containsAny used [needle] = true ↔ Mentions used needle := by
  simp [containsAny_iff, Mentions]

theorem containsAny_pair {used : StringSet} {needle needle' : String} :
    containsAny used [needle, needle'] = true ↔ Mentions used needle ∨ Mentions used needle' := by
  simp [containsAny_iff, Mentions, and_or_left, exists_or]

instance (used : StringSet) (needle : String) : Decidable (Mentions used needle) :=
  decidable_of_iff (containsAny used [needle] = true) containsAny_singleton

instance (x : Extensions) (p : Path) : Decidable (IsRead x p) :=
  inferInstanceAs (Decidable (∃ s ∈ x.suffixes, s.toList <:+ p.name.toList))

end Usage

namespace Survey

open Path (IsName)
open Settings (IsInside)

variable {fs : FileSystem} {root : Path} {s : Settings} {v : Survey}

/-- The walked files of a category that are read for imports. -/
def judged (s : Settings) (root : Path) (c : Category) (paths : List Path) : List Path :=
  paths.filter fun p => Category.ofPath s root p = c ∧ Usage.IsRead s.sourceExtensions p

/-- **The walk and the gathering behind a survey.** -/
theorem make_eq_ok (h : (make fs root s).outcome = .ok v) :
    ∃ paths, (Walk.traverse fs s.skipDirs root).outcome = .ok paths ∧
      (Usage.gather fs (.ofRoot fs.cwd root) (Usage.isSource s.sourceExtensions) paths).outcome =
        .ok v.used ∧
      v.root = root ∧ v.files = paths.map (SourceFile.ofPath s root) := by
  unfold make at h
  obtain ⟨paths, hpaths, h⟩ := Outcome.traced_bind_eq_ok.mp h
  obtain ⟨used, hused, h⟩ := Outcome.traced_bind_eq_ok.mp h
  obtain rfl := Outcome.traced_pure_eq_ok.mp h
  exact ⟨paths, hpaths, hused, rfl, rfl⟩

/-- A walk and a gathering make a survey. -/
theorem outcome_make {paths : List Path} {used : StringSet}
    (hp : (Walk.traverse fs s.skipDirs root).outcome = .ok paths)
    (hu : (Usage.gather fs (.ofRoot fs.cwd root) (Usage.isSource s.sourceExtensions) paths).outcome =
      .ok used) :
    (make fs root s).outcome = .ok ⟨root, paths.map (SourceFile.ofPath s root), used⟩ := by
  unfold make
  exact Outcome.traced_bind_eq_ok.mpr ⟨paths, hp, Outcome.traced_bind_eq_ok.mpr ⟨used, hu, rfl⟩⟩

/-- The files that a check asks a survey for are the judged ones. -/
theorem filesIn_make {suffixes : List String} {paths : List Path}
    (hx : s.sourceExtensions = .listed suffixes)
    (hf : v.files = paths.map (SourceFile.ofPath s root)) (c : Category) :
    v.filesIn c s.sourceExtensions = .ok ((judged s root c paths).map (SourceFile.ofPath s root)) := by
  have hread : ∀ p : Path, (suffixes.any fun x => Text.closes x p.name) =
      decide (Usage.IsRead s.sourceExtensions p) := by
    intro p
    rw [Bool.eq_iff_iff, decide_eq_true_eq, hx]
    simp [Usage.IsRead, Extensions.suffixes, Text.closes_iff]
  unfold filesIn ofCategory judged
  rw [hx] at hread ⊢
  simp only [Extensions.select, Extensions.ending?, hf, List.filter_map, List.filter_filter]
  congr 3
  funext p
  show (suffixes.any (fun x => Text.closes x p.name) && decide (Category.ofPath s root p = c)) = _
  rw [hread, Bool.and_comm, Bool.decide_and]

/-- The category of a judged file, and the way to it from the root. -/
theorem exists_of_mem_judged (hwf : fs.tree.WellFormed) {skip : Value} {paths : List Path}
    (hp : (Walk.traverse fs skip root).outcome = .ok paths) {c : Category} {p : Path}
    (h : p ∈ judged s root c paths) :
    ∃ way name, (∀ n ∈ way, IsName n) ∧ IsName name ∧
      p = Path.child ⟨root.anchor, root.segments ++ way⟩ name ∧
      Category.ofDirectory s (Path.relativeText way) = c := by
  obtain ⟨hmem, hc⟩ := List.mem_filter.mp h
  obtain ⟨names, -, -, rfl⟩ := Walk.traverse_eq_ok hp
  obtain ⟨way, name, hway, hname, rfl⟩ := Walk.below_of_mem_files hwf hmem
  refine ⟨way, name, fun n hn => (hway n hn).1, hname, rfl, ?_⟩
  rw [← Category.ofPath_child s root way name]
  exact (of_decide_eq_true hc).1

/-- **The path of a judged file, written with the setting of its category.** -/
theorem joinText_of_mem_judged (hwf : fs.tree.WellFormed) {skip : Value} {paths : List Path}
    (hp : (Walk.traverse fs skip root).outcome = .ok paths) {c : Category} {dir : String}
    (hin : IsInside dir)
    (hdir : ∀ d, Category.ofDirectory s d = c → d = Category.trimSlashes dir) {p : Path}
    (h : p ∈ judged s root c paths) : root.joinText (dir ++ "/" ++ p.name) = p := by
  obtain ⟨way, name, hway, hname, rfl, hc⟩ := exists_of_mem_judged hwf hp h
  rw [Path.name_child]
  exact Category.joinText_eq_child root hin hway hname (hdir _ hc)

/-! ### A small project -/

/-- The text of an application file that imports a hook. -/
def sampleText : String := "import { useA } from '@/hooks/useA'\n"

/-- An application with two hooks, of which it imports one. -/
def sample : FileSystem where
  tree := ((Tree.insert ⟨[]⟩ ["p", "src", "App.tsx"]
      (.file (Text.Utf8.encode sampleText.toList))).insert
        ["p", "src", "hooks", "useA.ts"] (.file [])).insert
        ["p", "src", "hooks", "useB.ts"] (.file [])
  cwd := ["p"]

/-- The source root of the small project. -/
def sampleRoot : Path := ⟨.root, ["p", "src"]⟩

theorem wellFormed_sample : sample.tree.WellFormed := by decide +kernel

theorem linkless_sample : sample.tree.Linkless := Tree.linkless_of_entries (by decide)

theorem isReal_sample : Tree.IsReal sample.tree sample.cwd :=
  .entry (n := .directory) .root (by decide) (by decide) (by decide) (by simp)

theorem resolve_sample : sample.resolve ⟨.current, []⟩ = .ok ⟨.root, ["p"]⟩ :=
  Outcome.eq_ok_of_toOption (by decide)

end Survey

end Unimported
