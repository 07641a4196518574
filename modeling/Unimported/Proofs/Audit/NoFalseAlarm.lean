import Unimported.Proofs.Audit.Sections
import Unimported.Proofs.Check.Labels
import Unimported.Proofs.Check.Verdicts
import Unimported.Proofs.Import.Designates

/-!
# No false alarm

What is flagged because nothing imports it is imported by nothing: no specifier of any file that was
walked and can be read designates it.  Two forms have to agree for this.  A resolver writes targets
that end in the directory and the module, and a check looks for the directory and the module in the
targets.  The rest is bookkeeping: the flagged file was walked, its label tells which check flagged
it, and every target of a file that was read is in use.

## Main definitions

* `Candidate.IsUnimported` — flagged because nothing imports it.

## Main results

* `Audit.not_designates` — when no target mentions a module, no specifier designates it.
* `Audit.exists_unmentioned` — no target mentions a module that is flagged.
* `Audit.no_false_alarm` — **what is flagged is designated by no specifier.**
-/

namespace Unimported

/-- A candidate that is flagged because nothing imports it. -/
structure Candidate.IsUnimported (k : Candidate) : Prop where
  label : k.label = "Hook" ∨ k.label = "UI Component"
  reason : k.reason = "Not imported in any file"

namespace Audit

open Path (IsName IsNormalText pieces)
open Resolver (Designates)
open Settings (IsInside)
open Usage (Mentions PutsInUse)

variable {fs : FileSystem} {root source : Path} {s : Settings} {v : Survey} {paths : List Path}
  {x : Extensions}

/-- **When no target mentions a module, no specifier designates it.** -/
theorem not_designates {used : StringSet}
    (hused : ∀ target, target ∈ used ↔ ∃ p ∈ paths, PutsInUse fs (.ofRoot fs.cwd source) x p target)
    {dir : String} (hin : IsInside dir) (hnormal : IsNormalText dir) {file : Path}
    (hplain : '\\' ∉ file.name.toList) (hunused : ¬ Mentions used (dir ++ "/" ++ file.stem))
    {p : Path} (hp : p ∈ paths) (hread : Usage.IsRead x p) {text : String}
    (htext : Source.read fs p = .ok text) {spec : String} (hspec : spec ∈ Import.specifiers text)
    {module : String} (hmodule : module = file.stem ∨ module = file.stem ++ file.suffix) :
    ¬ Designates fs.cwd source dir module p.parent spec := by
  intro hd
  -- either way the module starts with the stem and is part of the name
  obtain ⟨rest, hrest⟩ : ∃ rest, module = file.stem ++ rest := by
    rcases hmodule with rfl | rfl
    · exact ⟨"", by simp⟩
    · exact ⟨_, rfl⟩
  have hname : file.stem ++ file.suffix = file.name := Path.cutSuffix_append file.name
  have hback : '\\' ∉ module.toList := by
    rw [← hname, String.toList_append, List.mem_append, not_or] at hplain
    rcases hmodule with rfl | rfl
    · exact hplain.1
    · rw [String.toList_append, List.mem_append, not_or]
      exact hplain
  obtain ⟨front, hresolve⟩ := Resolver.resolve_of_designates hin hnormal hback hd
  refine hunused ⟨_, (hused _).mpr ⟨p, hp, hread, text, htext, spec, hspec, hresolve⟩, ?_⟩
  refine ⟨front.toList, rest.toList, ?_⟩
  rw [hrest]
  simp [List.append_assoc]

/-- The files of a section are those that its candidates name. -/
theorem exists_of_mem_map {files : List Path} {dir label reason : String} {P : Path → Prop}
    [DecidablePred P] {k : Candidate}
    (h : k ∈ (files.filter fun p => ¬ P p).map fun p =>
      (⟨dir ++ "/" ++ p.name, label, reason⟩ : Candidate)) :
    ∃ p ∈ files, ¬ P p ∧ k.file = dir ++ "/" ++ p.name := by
  obtain ⟨p, hp, rfl⟩ := List.mem_map.mp h
  obtain ⟨hp, hP⟩ := List.mem_filter.mp hp
  exact ⟨p, hp, of_decide_eq_true hP, rfl⟩

/-- **No target mentions a module that is flagged.** -/
theorem exists_unmentioned (hs : s.WellTyped) (hwf : fs.tree.WellFormed)
    (hpaths : (Walk.traverse fs s.skipDirs source).outcome = .ok paths)
    (hf : v.files = paths.map (SourceFile.ofPath s source)) {c : Check} {sec : Section}
    (hrun : (Check.run ⟨fs, s, v⟩ c).outcome = .ok sec) {k : Candidate}
    (hk : k ∈ sec.candidates) (hu : k.IsUnimported) :
    ∃ (dir : String) (file : Path), (dir = s.hooksDir ∨ dir = s.uiDir) ∧ IsName file.name ∧
      k.file = dir ++ "/" ++ file.name ∧ ¬ Mentions v.used (dir ++ "/" ++ file.stem) := by
  have hlabel := Check.label_of_run hrun k hk
  have hname : ∀ {cat : Category} {p : Path}, p ∈ Survey.judged s source cat paths →
      IsName p.name := by
    intro cat p hp
    obtain ⟨way, name, -, hname, rfl, -⟩ := Survey.exists_of_mem_judged hwf hpaths hp
    rwa [Path.name_child]
  rcases hu.label with hl | hl
  · rw [hl] at hlabel
    obtain rfl := Check.eq_hooks_of_label hlabel
    obtain ⟨sec', hsec', hverdicts⟩ := Check.hookVerdicts fs hs hwf hpaths hf
    obtain rfl := Except.ok.inj (hsec'.symm.trans (Outcome.ofFault_eq_ok.mp hrun))
    rw [hverdicts.candidates] at hk
    obtain ⟨p, hp, hunused, hfile⟩ := exists_of_mem_map hk
    exact ⟨s.hooksDir, p, Or.inl rfl, hname hp, hfile, hunused⟩
  · rw [hl] at hlabel
    obtain rfl := Check.eq_components_of_label hlabel
    obtain ⟨sec', hsec', hverdicts⟩ := Check.componentVerdicts fs hs hwf hpaths hf
    obtain rfl := Except.ok.inj (hsec'.symm.trans (Outcome.ofFault_eq_ok.mp hrun))
    rw [hverdicts.candidates] at hk
    obtain ⟨p, hp, hunused, hfile⟩ := exists_of_mem_map hk
    exact ⟨s.uiDir, p, Or.inr rfl, hname hp, hfile, fun h => hunused (Or.inl h)⟩

/-- A directory and a name are told from the text of both. -/
theorem eq_of_slashed_eq {dir dir' name name' : String} (hn : '/' ∉ name.toList)
    (hn' : '/' ∉ name'.toList) (h : dir ++ "/" ++ name = dir' ++ "/" ++ name') :
    dir = dir' ∧ name = name' := by
  have hp := congrArg pieces h
  rw [Path.pieces_append, Path.pieces_append, Path.pieces_of_not_mem hn,
    Path.pieces_of_not_mem hn'] at hp
  obtain ⟨hdir, hname⟩ := List.append_inj' hp rfl
  refine ⟨?_, by simpa using hname⟩
  rw [← Path.slashed_pieces dir, hdir, Path.slashed_pieces]

/-- **What is flagged is designated by no specifier** of a file that was walked and can be read. -/
theorem no_false_alarm {a : Audit} (hs : s.WellTyped) (hwf : fs.tree.WellFormed)
    (hhooks : IsNormalText s.hooksDir) (hui : IsNormalText s.uiDir)
    (ha : (ofSettings fs root s Check.all).outcome = .ok a) :
    ∃ real paths, fs.resolve root = .ok real ∧
      (Walk.traverse fs s.skipDirs (sourceRoot real s)).outcome = .ok paths ∧
      ∀ k ∈ a.candidates, k.IsUnimported → ∀ dir : String, dir = s.hooksDir ∨ dir = s.uiDir →
        ∀ file : Path, k.file = dir ++ "/" ++ file.name → '/' ∉ file.name.toList →
          '\\' ∉ file.name.toList →
        ∀ p ∈ paths, Usage.IsRead s.sourceExtensions p →
        ∀ text, Source.read fs p = .ok text → ∀ spec ∈ Import.specifiers text,
        ∀ module, module = file.stem ∨ module = file.stem ++ file.suffix →
          ¬ Designates fs.cwd (sourceRoot real s) dir module p.parent spec := by
  obtain ⟨real, v, hreal, hv, hsections⟩ := ofSettings_eq_ok ha
  obtain ⟨paths, hpaths, hgather, -, hf⟩ := Survey.make_eq_ok hv
  refine ⟨real, paths, hreal, hpaths, ?_⟩
  intro k hk hu dir hdir file hfile hslash hplain p hp hread text htext spec hspec module hmodule
  obtain ⟨sec, hsec, hk⟩ := List.mem_flatMap.mp hk
  obtain ⟨c, -, hrun⟩ := hsections sec hsec
  obtain ⟨dir', file', -, hname, hfile', hunused⟩ :=
    exists_unmentioned hs hwf hpaths hf hrun hk hu
  obtain ⟨rfl, hsame⟩ := eq_of_slashed_eq hslash hname.no_slash (hfile.symm.trans hfile')
  have hstem : file.stem = file'.stem := by unfold Path.stem; rw [hsame]
  rw [← hstem] at hunused
  have hin : IsInside dir := by
    rcases hdir with rfl | rfl
    · exact hs.hooksDir
    · exact hs.uiDir
  have hnormal : IsNormalText dir := by
    rcases hdir with rfl | rfl
    · exact hhooks
    · exact hui
  exact not_designates (Usage.mem_of_gather hgather) hin hnormal hplain hunused hp hread htext
    hspec hmodule

/-- In the small project the hook that is flagged is not the one that is imported. -/
theorem no_false_alarm_sample :
    ∃ a, (ofSettings Survey.sample ⟨.current, []⟩ .default Check.all).outcome = .ok a ∧
      a.candidates = [⟨"hooks/useB.ts", "Hook", "Not imported in any file"⟩] ∧
      ¬ Designates ["p"] Survey.sampleRoot "hooks" "useB" Survey.sampleRoot "@/hooks/useA" := by
  have hcandidates : (ofSettings Survey.sample ⟨.current, []⟩ .default
      Check.all).outcome.toOption.map (fun a => a.candidates) =
        some [⟨"hooks/useB.ts", "Hook", "Not imported in any file"⟩] := by decide +kernel
  cases ha : (ofSettings Survey.sample ⟨.current, []⟩ .default Check.all).outcome with
  | error e =>
    rw [ha] at hcandidates
    cases hcandidates
  | ok a =>
    rw [ha] at hcandidates
    have hall : a.candidates = _ := Option.some.inj hcandidates
    refine ⟨a, rfl, hall, ?_⟩
    obtain ⟨real, paths, hreal, hpaths, halarm⟩ := no_false_alarm Settings.wellTyped_default
      Survey.wellFormed_sample (by decide +kernel) (by decide +kernel) ha
    have hreal' : (Survey.sample.resolve ⟨.current, []⟩).toOption = some ⟨.root, ["p"]⟩ := by
      decide +kernel
    rw [hreal] at hreal'
    obtain rfl : real = _ := Option.some.inj hreal'
    have hfiles : (Walk.traverse Survey.sample Settings.default.skipDirs
        (sourceRoot ⟨.root, ["p"]⟩ .default)).outcome.toOption.map
          (fun paths => paths.contains ⟨.root, ["p", "src", "App.tsx"]⟩) = some true := by
      decide +kernel
    rw [hpaths] at hfiles
    have hfile : (⟨.root, ["p", "src", "App.tsx"]⟩ : Path) ∈ paths := by
      simpa [Except.toOption] using hfiles
    exact halarm ⟨"hooks/useB.ts", "Hook", "Not imported in any file"⟩ (by simp [hall])
      ⟨Or.inl rfl, rfl⟩ "hooks" (Or.inl rfl) ⟨.current, ["hooks", "useB.ts"]⟩ rfl
      (by decide +kernel) (by decide +kernel) _ hfile
      ⟨".tsx", by decide, by decide +kernel⟩ Survey.sampleText (by rfl) _ (by decide +kernel)
      "useB" (Or.inl (by decide +kernel))

end Audit

end Unimported
