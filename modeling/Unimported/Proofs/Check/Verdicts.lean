import Unimported.Check.Imported
import Unimported.Proofs.Import.Designates
import Unimported.Proofs.Survey.Made

/-!
# The verdicts on hooks and components

A hook or a component is judged by the targets in use, and by nothing else.  Every judged file gets
its verdict once, in the order of the walk: of a hook it is always told, of a component only when it
is not used, and what is not used becomes a candidate under a path that leads to the file.

## Main definitions

* `Check.HookInUse`, `Check.ComponentInUse` — the conditions that the verdicts depend on.
* `Check.HookVerdicts`, `Check.ComponentVerdicts` — a section says what the conditions say.

## Main results

* `Check.componentInUse_iff` — the last name of the directory of components is what counts.
* `Check.hookVerdicts`, `Check.componentVerdicts` — the sections of a survey that was made.
* `Check.verdicts_exact` — **targets and verdicts are exact, and the order of the files does not
  matter.**
-/

namespace Unimported.Check

open Usage (Mentions)

/-- Some target mentions the hook of a path. -/
def HookInUse (s : Settings) (used : StringSet) (p : Path) : Prop :=
  Mentions used (s.hooksDir ++ "/" ++ p.stem)

/-- Some target mentions the component of a path, by the whole directory or by its last name. -/
def ComponentInUse (s : Settings) (used : StringSet) (p : Path) : Prop :=
  Mentions used (s.uiDir ++ "/" ++ p.stem) ∨ Mentions used (s.uiLeaf ++ "/" ++ p.stem)

instance (s : Settings) (used : StringSet) (p : Path) : Decidable (HookInUse s used p) :=
  inferInstanceAs (Decidable (Mentions _ _))

instance (s : Settings) (used : StringSet) (p : Path) : Decidable (ComponentInUse s used p) :=
  inferInstanceAs (Decidable (Mentions _ _ ∨ Mentions _ _))

/-- A section tells of each file once whether it is in use, as a hook; those that are not are its
candidates, and the path of a candidate leads to its file. -/
structure HookVerdicts (s : Settings) (root : Path) (used : StringSet) (files : List Path)
    (sec : Section) : Prop where
  remarks : sec.remarks = files.map fun p =>
    if HookInUse s used p then ⟨p.name, .used, "is being used"⟩
    else ⟨p.name, .unused, "NOT imported anywhere"⟩
  candidates : sec.candidates = (files.filter fun p => ¬ HookInUse s used p).map fun p =>
    ⟨s.hooksDir ++ "/" ++ p.name, "Hook", "Not imported in any file"⟩
  leads : ∀ p ∈ files, root.joinText (s.hooksDir ++ "/" ++ p.name) = p

/-- A section tells of each file once that is not in use, as a component; they are its candidates,
and the path of a candidate leads to its file. -/
structure ComponentVerdicts (s : Settings) (root : Path) (used : StringSet) (files : List Path)
    (sec : Section) : Prop where
  remarks : sec.remarks = (files.filter fun p => ¬ ComponentInUse s used p).map fun p =>
    ⟨p.name, .unused, "NOT imported anywhere"⟩
  candidates : sec.candidates = (files.filter fun p => ¬ ComponentInUse s used p).map fun p =>
    ⟨s.uiDir ++ "/" ++ p.name, "UI Component", "Not imported in any file"⟩
  leads : ∀ p ∈ files, root.joinText (s.uiDir ++ "/" ++ p.name) = p

variable {fs : FileSystem} {root : Path} {s : Settings} {v : Survey} {paths : List Path}

/-- Taking the unused of some files, and taking the files of which no target tells. -/
theorem unusedFiles_map {used : StringSet} {needles : SourceFile → List String}
    {P : Path → Prop} [DecidablePred P]
    (h : ∀ p, Usage.containsAny used (needles (SourceFile.ofPath s root p)) = true ↔ P p)
    (files : List Path) :
    unusedFiles used needles (files.map (SourceFile.ofPath s root)) =
      (files.filter fun p => ¬ P p).map (SourceFile.ofPath s root) := by
  unfold unusedFiles
  rw [List.filter_map]
  congr 2
  funext p
  rw [Bool.eq_iff_iff]
  simp [← h p]

theorem containsAny_hookNeedles {used : StringSet} (p : Path) :
    Usage.containsAny used (hookNeedles s (SourceFile.ofPath s root p)) = true ↔
      HookInUse s used p :=
  Usage.containsAny_singleton

theorem containsAny_componentNeedles {used : StringSet} (p : Path) :
    Usage.containsAny used (componentNeedles s (SourceFile.ofPath s root p)) = true ↔
      ComponentInUse s used p :=
  Usage.containsAny_pair

/-! ### The last name of a directory -/

/-- A setting without slashes at its end ends in the last name. -/
theorem uiLeaf_suffix (hui : Path.IsNormalText s.uiDir) : s.uiLeaf.toList <:+ s.uiDir.toList := by
  have hkeep := Category.dropWhile_slash hui.last_ne_slash
  unfold Settings.uiLeaf
  rw [String.toList_ofList, hkeep, ← List.reverse_prefix, List.reverse_reverse]
  exact List.takeWhile_prefix _

/-- What mentions a component under its whole directory does so under the last name. -/
theorem componentInUse_iff (hui : Path.IsNormalText s.uiDir) (used : StringSet) (p : Path) :
    ComponentInUse s used p ↔ Mentions used (s.uiLeaf ++ "/" ++ p.stem) := by
  refine ⟨fun h => h.elim (fun ⟨target, htarget, hin⟩ => ⟨target, htarget, ?_⟩) id, Or.inr⟩
  obtain ⟨front, hfront⟩ := uiLeaf_suffix hui
  refine List.IsInfix.trans ⟨front, [], ?_⟩ hin
  simp only [String.toList_append, ← hfront, List.append_nil, List.append_assoc]

/-! ### The sections of a survey -/

/-- **The section on hooks of a survey that was made.** -/
theorem hookVerdicts (fs' : FileSystem) (hs : s.WellTyped) (hwf : fs.tree.WellFormed)
    (hp : (Walk.traverse fs s.skipDirs root).outcome = .ok paths)
    (hf : v.files = paths.map (SourceFile.ofPath s root)) :
    ∃ sec, hookSection ⟨fs', s, v⟩ = .ok sec ∧
      HookVerdicts s root v.used (Survey.judged s root .hook paths) sec := by
  obtain ⟨suffixes, hx⟩ := hs.sourceExtensions
  refine ⟨_, by unfold hookSection; rw [Survey.filesIn_make hx hf]; rfl, ?_, ?_, ?_⟩
  · simp only [List.map_map]
    refine List.map_congr_left fun p _ => ?_
    simp only [Function.comp_apply, containsAny_hookNeedles]
    rfl
  · simp only [unusedFiles_map (P := HookInUse s v.used) containsAny_hookNeedles, List.map_map]
    rfl
  · exact fun p hmem => Survey.joinText_of_mem_judged hwf hp hs.hooksDir
      (fun d => Category.eq_of_ofDirectory_eq_hook) hmem

/-- **The section on components of a survey that was made.** -/
theorem componentVerdicts (fs' : FileSystem) (hs : s.WellTyped) (hwf : fs.tree.WellFormed)
    (hp : (Walk.traverse fs s.skipDirs root).outcome = .ok paths)
    (hf : v.files = paths.map (SourceFile.ofPath s root)) :
    ∃ sec, componentSection ⟨fs', s, v⟩ = .ok sec ∧
      ComponentVerdicts s root v.used (Survey.judged s root .component paths) sec := by
  obtain ⟨suffixes, hx⟩ := hs.sourceExtensions
  refine ⟨_, by unfold componentSection; rw [Survey.filesIn_make hx hf]; rfl, ?_, ?_, ?_⟩
  · simp only [unusedFiles_map (P := ComponentInUse s v.used) containsAny_componentNeedles,
      List.map_map]
    rfl
  · simp only [unusedFiles_map (P := ComponentInUse s v.used) containsAny_componentNeedles,
      List.map_map]
    rfl
  · exact fun p hmem => Survey.joinText_of_mem_judged hwf hp hs.uiDir
      (fun d => Category.eq_of_ofDirectory_eq_component) hmem

/-- **Targets and verdicts are exact, and the order of the files does not matter.** -/
theorem verdicts_exact (hs : s.WellTyped) (hwf : fs.tree.WellFormed)
    (hv : (Survey.make fs root s).outcome = .ok v) :
    ∃ paths, (Walk.traverse fs s.skipDirs root).outcome = .ok paths ∧
      (∀ target, target ∈ v.used ↔
        ∃ p ∈ paths, Usage.PutsInUse fs (.ofRoot fs.cwd root) s.sourceExtensions p target) ∧
      (∀ files files' : List Path, (∀ p, p ∈ files ↔ p ∈ files') →
        (Usage.ofFiles fs root s.sourceExtensions.value files).outcome =
          (Usage.ofFiles fs root s.sourceExtensions.value files').outcome) ∧
      (Usage.ofFiles fs root s.sourceExtensions.value paths).outcome = .ok v.used ∧
      ∀ fs' : FileSystem,
        (∃ sec, hookSection ⟨fs', s, v⟩ = .ok sec ∧
          HookVerdicts s root v.used (Survey.judged s root .hook paths) sec) ∧
        ∃ sec, componentSection ⟨fs', s, v⟩ = .ok sec ∧
          ComponentVerdicts s root v.used (Survey.judged s root .component paths) sec := by
  obtain ⟨paths, hpaths, hgather, -, hf⟩ := Survey.make_eq_ok hv
  obtain ⟨suffixes, hx⟩ := hs.sourceExtensions
  refine ⟨paths, hpaths, Usage.mem_of_gather hgather, ?_, ?_, fun fs' => ⟨?_, ?_⟩⟩
  · intro files files' h
    rw [hx]
    exact Usage.ofFiles_congr fs root suffixes h
  · rw [hx] at hgather ⊢
    rw [← hgather]
    exact Usage.outcome_ofFiles fs root suffixes paths
  · exact hookVerdicts fs' hs hwf hpaths hf
  · exact componentVerdicts fs' hs hwf hpaths hf

/-- In the small project one hook is in use, and the section on hooks tells so. -/
theorem verdicts_exact_sample :
    ∃ v, (Survey.make Survey.sample Survey.sampleRoot .default).outcome = .ok v ∧
      v.used.members = ["src/hooks/useA"] ∧
      ∃ paths sec, (Walk.traverse Survey.sample Settings.default.skipDirs
          Survey.sampleRoot).outcome = .ok paths ∧
        hookSection ⟨Survey.sample, .default, v⟩ = .ok sec ∧
        HookVerdicts .default Survey.sampleRoot v.used
          (Survey.judged .default Survey.sampleRoot .hook paths) sec := by
  have hused : (Survey.make Survey.sample Survey.sampleRoot .default).outcome.toOption.map
      (fun v => v.used.members) = some ["src/hooks/useA"] := by decide +kernel
  cases hv : (Survey.make Survey.sample Survey.sampleRoot .default).outcome with
  | error e =>
    rw [hv] at hused
    cases hused
  | ok v =>
    rw [hv] at hused
    obtain ⟨paths, hpaths, -, -, -, hsections⟩ :=
      verdicts_exact Settings.wellTyped_default Survey.wellFormed_sample hv
    obtain ⟨⟨sec, hsec, hverdicts⟩, -⟩ := hsections Survey.sample
    exact ⟨v, rfl, Option.some.inj hused, paths, sec, hpaths, hsec, hverdicts⟩

end Unimported.Check
