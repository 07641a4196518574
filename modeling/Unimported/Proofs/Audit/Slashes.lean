import Unimported.Proofs.Audit.Sections
import Unimported.Proofs.Check.Answered
import Unimported.Proofs.Check.Labels
import Unimported.Proofs.Check.Verdicts
import Unimported.Proofs.Import.Designates
import Unimported.Proofs.Settings.Slashes
import Unimported.Proofs.Tree.Linkless

/-!
# Verdicts when directories have slashes at their end

With slashes at the end of the settings an audit surveys the same files and looks at them in the
same categories, and it judges pages alike.  But a hook is looked for in the targets under the text
of the setting, slashes and all, which the targets do not hold: every hook is flagged, imported or
not.  A component is looked for under the last name of its directory as well, and so it is spared.

## Main definitions

* `Audit.Flags` — a file that a check flags.

## Main results

* `Audit.flags_hooks_iff`, `Audit.flags_components_iff` — which files are flagged, and why.
* `Audit.sameFailure_withSlashes` — an audit returns if and only if it does with slashes.
* `Audit.flags_withSlashes` — **what slashes at the end of settings change.**
* `Audit.flags_hooks_slashed` — an imported hook is flagged because of one slash.
-/

namespace Unimported

open Outcome
open Path (IsNormalText)
open Settings (IsInside)
open Usage (Mentions)

namespace Audit

/-- A file that a check flags: the path of a candidate leads to it. -/
def Flags (a : Audit) (source : Path) (c : Check) (p : Path) : Prop :=
  ∃ k ∈ a.candidates, c.label? = some k.label ∧ source.joinText k.file = p

variable {fs : FileSystem} {root source : Path} {s : Settings} {v : Survey} {paths : List Path}
  {a : Audit} {p : Path}

/-! ### What is flagged -/

/-- What a check flags is told by its section. -/
theorem flags_iff (hv : (Survey.make fs source s).outcome = .ok v)
    (ha : (ofSource fs source s Check.all).outcome = .ok a) {c : Check} {sec : Section}
    (hsec : (c.run ⟨fs, s, v⟩).outcome = .ok sec) :
    a.Flags source c p ↔ ∃ k ∈ sec.candidates, source.joinText k.file = p := by
  obtain ⟨v', hv', hsections, -⟩ := exists_survey ha
  obtain rfl := Except.ok.inj (hv.symm.trans hv')
  constructor
  · rintro ⟨k, hk, hlabel, hpath⟩
    obtain ⟨sec', hsec', hk⟩ := List.mem_flatMap.mp hk
    obtain ⟨d, -, hrun⟩ := exists_of_mem_sections hsections sec' hsec'
    -- the label tells that it is the section of the check
    obtain rfl := Check.eq_of_label (Check.label_of_run hrun k hk) hlabel
    obtain rfl := Except.ok.inj (hrun.symm.trans hsec)
    exact ⟨k, hk, hpath⟩
  · rintro ⟨k, hk, hpath⟩
    obtain ⟨sec', hmem, hrun⟩ := exists_section hsections c (Check.mem_all c)
    obtain rfl := Except.ok.inj (hrun.symm.trans hsec)
    exact ⟨k, List.mem_flatMap.mpr ⟨sec', hmem, hk⟩, Check.label_of_run hsec k hk, hpath⟩

/-- The files behind candidates that are made of a directory and a name. -/
theorem exists_candidate_iff {files : List Path} {dir label reason : String} {P : Path → Prop}
    [DecidablePred P] (hleads : ∀ q ∈ files, source.joinText (dir ++ "/" ++ q.name) = q) :
    (∃ k ∈ (files.filter fun q => ¬ P q).map fun q =>
        (⟨dir ++ "/" ++ q.name, label, reason⟩ : Candidate), source.joinText k.file = p) ↔
      p ∈ files ∧ ¬ P p := by
  constructor
  · rintro ⟨k, hk, hpath⟩
    obtain ⟨q, hq, rfl⟩ := List.mem_map.mp hk
    obtain ⟨hq, hP⟩ := List.mem_filter.mp hq
    obtain rfl : q = p := (hleads q hq).symm.trans hpath
    exact ⟨hq, of_decide_eq_true hP⟩
  · rintro ⟨hp, hP⟩
    have hmem : p ∈ files.filter fun q => ¬ P q := List.mem_filter.mpr ⟨hp, decide_eq_true hP⟩
    exact ⟨_, List.mem_map_of_mem hmem, hleads p hp⟩

/-- **A hook is flagged** if and only if no target mentions it under the text of the setting. -/
theorem flags_hooks_iff (hs : s.WellTyped) (hwf : fs.tree.WellFormed)
    (hv : (Survey.make fs source s).outcome = .ok v)
    (hp : (Walk.traverse fs s.skipDirs source).outcome = .ok paths)
    (ha : (ofSource fs source s Check.all).outcome = .ok a) :
    a.Flags source .hooks p ↔
      p ∈ Survey.judged s source .hook paths ∧ ¬ Mentions v.used (s.hooksDir ++ "/" ++ p.stem) := by
  obtain ⟨paths', hp', -, -, hfiles⟩ := Survey.make_eq_ok hv
  obtain rfl := Except.ok.inj (hp.symm.trans hp')
  obtain ⟨sec, hsec, hverdicts⟩ := Check.hookVerdicts fs hs hwf hp hfiles
  rw [flags_iff hv ha (c := .hooks) (ofFault_eq_ok.mpr hsec), hverdicts.candidates]
  exact exists_candidate_iff hverdicts.leads

/-- **A component is flagged** if and only if no target mentions it, neither under the text of the
setting nor under the last name of its directory. -/
theorem flags_components_iff (hs : s.WellTyped) (hwf : fs.tree.WellFormed)
    (hv : (Survey.make fs source s).outcome = .ok v)
    (hp : (Walk.traverse fs s.skipDirs source).outcome = .ok paths)
    (ha : (ofSource fs source s Check.all).outcome = .ok a) :
    a.Flags source .components p ↔ p ∈ Survey.judged s source .component paths ∧
      ¬ Check.ComponentInUse s v.used p := by
  obtain ⟨paths', hp', -, -, hfiles⟩ := Survey.make_eq_ok hv
  obtain rfl := Except.ok.inj (hp.symm.trans hp')
  obtain ⟨sec, hsec, hverdicts⟩ := Check.componentVerdicts fs hs hwf hp hfiles
  rw [flags_iff hv ha (c := .components) (ofFault_eq_ok.mpr hsec), hverdicts.candidates]
  exact exists_candidate_iff hverdicts.leads

/-! ### With slashes and without -/

section WithSlashes

variable {hooks ui pages : Nat}

/-- The survey is the same. -/
theorem make_withSlashes (hs : s.WellTyped) (fs : FileSystem) (source : Path)
    (hooks ui pages : Nat) :
    Survey.make fs source (s.withSlashes hooks ui pages) = Survey.make fs source s := by
  have hfile : SourceFile.ofPath (s.withSlashes hooks ui pages) source =
      SourceFile.ofPath s source := by
    funext p
    exact congrArg (SourceFile.mk p) (Category.ofPath_withSlashes hs hooks ui pages source p)
  unfold Survey.make
  rw [hfile]
  rfl

/-- So are the files that are judged. -/
theorem judged_withSlashes (hs : s.WellTyped) (hooks ui pages : Nat) (source : Path) (c : Category)
    (paths : List Path) :
    Survey.judged (s.withSlashes hooks ui pages) source c paths = Survey.judged s source c paths := by
  unfold Survey.judged
  simp only [Category.ofPath_withSlashes hs]
  rfl

/-- Pages are judged alike, and the candidates lead to the same files. -/
theorem pageSection_withSlashes (fs : FileSystem) (source : Path) (v : Survey) (hooks ui pages : Nat)
    (hs : s.WellTyped) :
    (∃ e, (Check.pageSection ⟨fs, s, v⟩).outcome = .error e ∧
      (Check.pageSection ⟨fs, s.withSlashes hooks ui pages, v⟩).outcome = .error e) ∨
    ∃ sec sec', (Check.pageSection ⟨fs, s, v⟩).outcome = .ok sec ∧
      (Check.pageSection ⟨fs, s.withSlashes hooks ui pages, v⟩).outcome = .ok sec' ∧
      sec'.candidates.map (fun k => source.joinText k.file) =
        sec.candidates.map fun k => source.joinText k.file := by
  obtain ⟨suffixes, hx⟩ := hs.pageExtensions
  obtain ⟨files, hfiles⟩ : ∃ files, v.filesIn .page s.pageExtensions = .ok files := by
    rw [hx]
    exact ⟨_, rfl⟩
  have hentry : Scene.entryText ⟨fs, s.withSlashes hooks ui pages, v⟩ =
    Scene.entryText ⟨fs, s, v⟩ := rfl
  have hpath : ∀ f : SourceFile,
      source.joinText (Path.withSlashes s.pagesDir pages ++ "/" ++ f.name) =
        source.joinText (s.pagesDir ++ "/" ++ f.name) := fun f =>
    Path.joinText_withSlashes source (hs.inside (f := .pagesDir) (by decide) rfl) pages f.name
  unfold Check.pageSection
  rw [hentry]
  simp only [show (s.withSlashes hooks ui pages).pageExtensions = s.pageExtensions from rfl]
  rw [Traced.outcome_bind, Traced.outcome_bind, ofFault_eq_ok.mpr hfiles]
  simp only [Except.bind]
  split
  · exact Or.inr ⟨_, _, rfl, rfl, rfl⟩
  · rw [Traced.outcome_bind, Traced.outcome_bind]
    cases htext : (Scene.entryText ⟨fs, s, v⟩).outcome with
    | error e => exact Or.inl ⟨e, rfl, rfl⟩
    | ok text =>
      cases text with
      | none => exact Or.inr ⟨_, _, rfl, rfl, rfl⟩
      | some text =>
        refine Or.inr ⟨_, _, rfl, rfl, ?_⟩
        rw [List.map_map, List.map_map]
        exact List.map_congr_left fun f _ => hpath f

/-- The copies of a file that stands twice are asked for under the same paths. -/
theorem sameFailure_duplicateSection (hs : s.WellTyped) :
    SameFailure (Check.duplicateSection ⟨fs, s, v⟩).outcome
      (Check.duplicateSection ⟨fs, s.withSlashes hooks ui pages, v⟩).outcome := by
  have hasks : ∀ {dir : String}, IsInside dir → ∀ n,
      Scene.hasFile ⟨fs, s, v⟩ (dir ++ "/" ++ s.duplicateName) =
        Scene.hasFile ⟨fs, s.withSlashes hooks ui pages, v⟩
          (Path.withSlashes dir n ++ "/" ++ s.duplicateName) := by
    intro dir hdir n
    unfold Scene.hasFile Scene.path
    rw [Path.joinText_withSlashes _ hdir n]
  unfold Check.duplicateSection
  refine SameFailure.bind_of_eq (congrArg Traced.outcome (hasks hs.hooksDir hooks)) fun inHooks _ => ?_
  split
  · exact sameFailure_of_ok _ _
  · refine SameFailure.bind_of_eq (congrArg Traced.outcome (hasks hs.uiDir ui)) fun inUi _ => ?_
    split
    · exact sameFailure_of_ok _ _
    · refine SameFailure.bind (x := Scene.entryText ⟨fs, s, v⟩)
        (y := Scene.entryText ⟨fs, s.withSlashes hooks ui pages, v⟩) (SameFailure.of_eq rfl)
        fun text text' _ _ => ?_
      -- with the text at hand, nothing can fail
      refine sameFailure_of_exists ?_ ?_
      · cases text with
        | none => exact ⟨_, rfl⟩
        | some text =>
          simp only
          split
          · exact ⟨_, rfl⟩
          · split
            · exact ⟨_, rfl⟩
            · exact ⟨_, rfl⟩
      · cases text' with
        | none => exact ⟨_, rfl⟩
        | some text =>
          simp only
          split
          · exact ⟨_, rfl⟩
          · split
            · exact ⟨_, rfl⟩
            · exact ⟨_, rfl⟩

/-- Each check fails for the same reason. -/
theorem sameFailure_run (hs : s.WellTyped) (c : Check) :
    SameFailure (c.run ⟨fs, s, v⟩).outcome
      (c.run ⟨fs, s.withSlashes hooks ui pages, v⟩).outcome := by
  obtain ⟨suffixes, hx⟩ := hs.sourceExtensions
  cases c with
  | components =>
    obtain ⟨sec, hsec⟩ := Check.exists_componentSection (x := ⟨fs, s, v⟩) hx
    obtain ⟨sec', hsec'⟩ := Check.exists_componentSection
      (x := ⟨fs, s.withSlashes hooks ui pages, v⟩) hx
    exact sameFailure_of_exists ⟨sec, ofFault_eq_ok.mpr hsec⟩ ⟨sec', ofFault_eq_ok.mpr hsec'⟩
  | hooks =>
    obtain ⟨sec, hsec⟩ := Check.exists_hookSection (x := ⟨fs, s, v⟩) hx
    obtain ⟨sec', hsec'⟩ := Check.exists_hookSection
      (x := ⟨fs, s.withSlashes hooks ui pages, v⟩) hx
    exact sameFailure_of_exists ⟨sec, ofFault_eq_ok.mpr hsec⟩ ⟨sec', ofFault_eq_ok.mpr hsec'⟩
  | pages =>
    rcases pageSection_withSlashes fs v.root v hooks ui pages hs with
      ⟨e, he, he'⟩ | ⟨sec, sec', hsec, hsec', -⟩
    · exact fun f => by rw [Check.run, Check.run, he, he']
    · exact sameFailure_of_exists ⟨sec, hsec⟩ ⟨sec', hsec'⟩
  | duplicate => exact sameFailure_duplicateSection hs
  | stylesheet => exact .of_eq rfl
  | assets => exact .of_eq rfl

/-- **An audit returns if and only if it does with slashes**, and otherwise it fails for the same
reason. -/
theorem sameFailure_withSlashes (hs : s.WellTyped) :
    SameFailure (ofSettings fs root s Check.all).outcome
      (ofSettings fs root (s.withSlashes hooks ui pages) Check.all).outcome := by
  unfold ofSettings
  refine SameFailure.bind_of_eq rfl fun real _ => ?_
  unfold ofRoot
  refine SameFailure.bind_of_eq rfl fun isDir _ => ?_
  split
  · unfold ofSource
    refine SameFailure.bind_of_eq rfl fun _ _ => ?_
    rw [make_withSlashes hs]
    refine SameFailure.bind_of_eq rfl fun v _ => ?_
    refine (sameFailure_runChecks fun c _ => sameFailure_run hs c).bind fun _ _ _ _ => ?_
    exact SameFailure.bind_of_eq rfl fun _ _ => sameFailure_of_ok _ _
  · exact .of_eq rfl

/-- Pages are flagged alike. -/
theorem flags_pages_withSlashes {a a' : Audit} (hs : s.WellTyped)
    (hv : (Survey.make fs source s).outcome = .ok v)
    (ha : (ofSource fs source s Check.all).outcome = .ok a)
    (ha' : (ofSource fs source (s.withSlashes hooks ui pages) Check.all).outcome = .ok a') :
    a'.Flags source .pages p ↔ a.Flags source .pages p := by
  have hv' := (congrArg Traced.outcome (make_withSlashes hs fs source hooks ui pages)).trans hv
  rcases pageSection_withSlashes fs source v hooks ui pages hs with
    ⟨e, he, -⟩ | ⟨sec, sec', hsec, hsec', hpaths⟩
  · -- the audit would have failed
    obtain ⟨v', hv'', hsections, -⟩ := exists_survey ha
    obtain rfl := Except.ok.inj (hv.symm.trans hv'')
    obtain ⟨sec, -, hsec⟩ := exists_section hsections .pages (by decide)
    rw [show (Check.run ⟨fs, s, v⟩ .pages).outcome = .error e from he] at hsec
    cases hsec
  · rw [flags_iff hv ha (c := .pages) hsec,
      flags_iff (s := s.withSlashes hooks ui pages) hv' ha' (c := .pages) hsec']
    have hmem := congrArg (fun l => p ∈ l) hpaths
    simpa only [List.mem_map] using iff_of_eq hmem

/-- **What slashes at the end of settings change.**  The same pages are flagged.  Components are,
unless a target mentions them with all the slashes.  But hooks are looked for with the slashes only:
every hook is flagged that no target mentions so. -/
theorem flags_withSlashes (hs : s.WellTyped) (hwf : fs.tree.WellFormed)
    (hui : IsNormalText s.uiDir) (hooks ui pages : Nat) :
    SameFailure (ofSettings fs root s Check.all).outcome
      (ofSettings fs root (s.withSlashes hooks ui pages) Check.all).outcome ∧
    ∀ a a', (ofSettings fs root s Check.all).outcome = .ok a →
      (ofSettings fs root (s.withSlashes hooks ui pages) Check.all).outcome = .ok a' →
      ∃ real v paths, fs.resolve root = .ok real ∧
        (Survey.make fs (sourceRoot real s) s).outcome = .ok v ∧
        (Walk.traverse fs s.skipDirs (sourceRoot real s)).outcome = .ok paths ∧
        ∀ p, (a'.Flags (sourceRoot real s) .pages p ↔ a.Flags (sourceRoot real s) .pages p) ∧
          (a'.Flags (sourceRoot real s) .components p ↔ a.Flags (sourceRoot real s) .components p ∧
            ¬ Mentions v.used (Path.withSlashes s.uiDir ui ++ "/" ++ p.stem)) ∧
          (a.Flags (sourceRoot real s) .hooks p ↔
            p ∈ Survey.judged s (sourceRoot real s) .hook paths ∧
              ¬ Mentions v.used (s.hooksDir ++ "/" ++ p.stem)) ∧
          (a'.Flags (sourceRoot real s) .hooks p ↔
            p ∈ Survey.judged s (sourceRoot real s) .hook paths ∧
              ¬ Mentions v.used (Path.withSlashes s.hooksDir hooks ++ "/" ++ p.stem)) := by
  refine ⟨sameFailure_withSlashes hs, fun a a' ha ha' => ?_⟩
  obtain ⟨real, v, hreal, hv, -⟩ := ofSettings_eq_ok ha
  obtain ⟨real₁, hreal₁, -, ha₁⟩ := exists_ofSource ha
  obtain ⟨real₂, hreal₂, -, ha₂⟩ := exists_ofSource ha'
  obtain rfl := Except.ok.inj (hreal.symm.trans hreal₁)
  obtain rfl := Except.ok.inj (hreal.symm.trans hreal₂)
  obtain ⟨paths, hpaths, -⟩ := Survey.make_eq_ok hv
  have hs' := hs.withSlashes hooks ui pages
  have hv' := (congrArg Traced.outcome
    (make_withSlashes hs fs (sourceRoot real s) hooks ui pages)).trans hv
  refine ⟨real, v, paths, hreal, hv, hpaths, fun p => ⟨?_, ?_, ?_, ?_⟩⟩
  · exact flags_pages_withSlashes hs hv ha₁ ha₂
  · rw [flags_components_iff hs hwf hv hpaths ha₁, Check.componentInUse_iff hui]
    rw [flags_components_iff hs' hwf hv' hpaths ha₂, judged_withSlashes hs, Check.ComponentInUse,
      Settings.uiLeaf_withSlashes, not_or]
    exact ⟨fun ⟨hp, hwhole, hleaf⟩ => ⟨⟨hp, hleaf⟩, hwhole⟩,
      fun ⟨⟨hp, hleaf⟩, hwhole⟩ => ⟨hp, hwhole, hleaf⟩⟩
  · exact flags_hooks_iff hs hwf hv hpaths ha₁
  · rw [flags_hooks_iff hs' hwf hv' hpaths ha₂, judged_withSlashes hs]
    rfl

end WithSlashes

/-! ### Slashes in the small project -/

/-- The hook that the small project imports. -/
def importedHook : Path := ⟨.root, ["p", "src", "hooks", "useA.ts"]⟩

/-- The imported hook is flagged just with the slashes. -/
theorem flags_withSlashes_sample :
    ∃ a a', (ofSettings Survey.sample ⟨.current, []⟩ .default Check.all).outcome = .ok a ∧
      (ofSettings Survey.sample ⟨.current, []⟩ (Settings.default.withSlashes 1 2 1)
        Check.all).outcome = .ok a' ∧
      ¬ a.Flags Survey.sampleRoot .hooks importedHook ∧
      a'.Flags Survey.sampleRoot .hooks importedHook := by
  have hisSome : (ofSettings Survey.sample ⟨.current, []⟩ .default
      Check.all).outcome.toOption.isSome := by decide +kernel
  obtain ⟨a, ha⟩ := Option.isSome_iff_exists.mp hisSome
  have ha := eq_ok_of_toOption ha
  obtain ⟨hfailure, hflags⟩ := flags_withSlashes Settings.wellTyped_default
    Survey.wellFormed_sample (by decide +kernel) 1 2 1
  obtain ⟨a', ha'⟩ := SameFailure.exists_ok (fun e => (hfailure e).symm) ha
  obtain ⟨real, v, paths, hreal, hv, hpaths, hall⟩ := hflags a a' ha ha'
  have hreal' : (Survey.sample.resolve ⟨.current, []⟩).toOption = some ⟨.root, ["p"]⟩ := by
    decide +kernel
  rw [hreal] at hreal'
  obtain rfl : real = _ := Option.some.inj hreal'
  have hsource : sourceRoot ⟨.root, ["p"]⟩ .default = Survey.sampleRoot := by decide +kernel
  rw [hsource] at hv hpaths hall
  have hused : (Survey.make Survey.sample Survey.sampleRoot .default).outcome.toOption.map
      (fun v => v.used.members) = some ["src/hooks/useA"] := by decide +kernel
  rw [hv] at hused
  have hmembers : v.used.members = ["src/hooks/useA"] := Option.some.inj hused
  have hjudged : (Walk.traverse Survey.sample Settings.default.skipDirs
      Survey.sampleRoot).outcome.toOption.map (fun paths => decide (importedHook ∈
        Survey.judged .default Survey.sampleRoot .hook paths)) = some true := by decide +kernel
  rw [hpaths] at hjudged
  have hmem := of_decide_eq_true (Option.some.inj hjudged)
  obtain ⟨-, -, hplain, hslashed⟩ := hall importedHook
  refine ⟨a, a', ha, ha', fun h => (hplain.mp h).2 ?_, hslashed.mpr ⟨hmem, ?_⟩⟩
  · refine ⟨"src/hooks/useA", ?_, by decide +kernel⟩
    rw [← StringSet.mem_members, hmembers]
    exact List.mem_cons_self
  · rintro ⟨target, htarget, hin⟩
    rw [← StringSet.mem_members, hmembers, List.mem_singleton] at htarget
    rw [htarget] at hin
    exact absurd hin (by decide +kernel)

/-- **An imported hook is flagged because of one slash.** -/
theorem flags_hooks_slashed :
    Settings.default.WellTyped ∧ (Settings.default.withSlashes 1 0 0).WellTyped ∧
      IsNormalText Settings.default.hooksDir ∧ Survey.sample.tree.Linkless ∧
      (ofSettings Survey.sample ⟨.current, []⟩ .default Check.all).outcome.toOption.map
        (fun a => a.candidates.map fun k => Survey.sampleRoot.joinText k.file) =
          some [⟨.root, ["p", "src", "hooks", "useB.ts"]⟩] ∧
      (ofSettings Survey.sample ⟨.current, []⟩ (Settings.default.withSlashes 1 0 0)
        Check.all).outcome.toOption.map
        (fun a => a.candidates.map fun k => Survey.sampleRoot.joinText k.file) =
          some [importedHook, ⟨.root, ["p", "src", "hooks", "useB.ts"]⟩] :=
  ⟨Settings.wellTyped_default, Settings.wellTyped_default.withSlashes 1 0 0, by decide +kernel,
    Tree.linkless_of_entries (by decide +kernel), by decide +kernel, by decide +kernel⟩

end Audit

end Unimported
