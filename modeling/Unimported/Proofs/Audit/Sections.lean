import Unimported.Audit
import Unimported.Proofs.Check.Alike

/-!
# What an audit is made of

An audit that ends was made from a survey, and its sections are those that its checks give on the
finished survey, one after the other.

* `Audit.sections_eq_map`, `Audit.exists_of_mem_sections`, `Audit.exists_section` — the sections are
  those that the checks give.
* `Audit.exists_survey` — the survey behind an audit, and what the audit counts.
* `Audit.runChecks_of_ofSettings`, `Audit.ofSettings_eq_ok` — the survey and the checks behind an
  audit.
* `Audit.runChecks_eq`, `Audit.runChecks_congr`, `Audit.runChecks_eq_error` — checks that give the
  same, with their records or without, and one that fails.
* `Audit.sameFailure_runChecks` — checks that fail for the same reasons.
* `Audit.exists_runChecks_all`, `Audit.runChecks_all_eq_error`, `Audit.runChecks_all_congr` — all
  checks together, as the one that lists a directory decides.
* `Audit.outcome_ofSettings`, `Audit.outcome_ofSettings_of_not_isDirectory`,
  `Audit.outcome_ofSource` — an audit as its survey and its sections.
-/

namespace Unimported.Audit

open Outcome

variable {fs : FileSystem} {root : Path} {s : Settings} {checks : List Check} {a : Audit}

theorem runCheck_eq_ok {x : Scene} {c : Check} {sec : Section}
    (h : (runCheck x c).outcome = .ok sec) : (c.run x).outcome = .ok sec := by
  unfold runCheck at h
  obtain ⟨sec', hrun, h⟩ := traced_bind_eq_ok.mp h
  obtain ⟨u, -, h⟩ := traced_bind_eq_ok.mp h
  obtain rfl := traced_pure_eq_ok.mp h
  exact hrun

/-- The section that a check gives, if it gives one. -/
def sectionOf (x : Scene) (c : Check) : Section := (c.run x).outcome.toOption.getD default

theorem sectionOf_of_run {x : Scene} {c : Check} {sec : Section}
    (h : (c.run x).outcome = .ok sec) : sectionOf x c = sec := by
  rw [sectionOf, h]
  rfl

/-- **The sections of a run that ends are those that its checks give**, one after the other. -/
theorem sections_eq_map {x : Scene} {checks : List Check} {sections : List Section}
    (h : (runChecks x checks).outcome = .ok sections) :
    sections = checks.map (sectionOf x) ∧
      ∀ c ∈ checks, (c.run x).outcome = .ok (sectionOf x c) := by
  induction checks generalizing sections with
  | nil =>
    obtain rfl := Except.ok.inj h
    simp
  | cons c checks ih =>
    obtain ⟨sec, hsec, h⟩ := traced_bind_eq_ok.mp h
    obtain ⟨secs, hsecs, h⟩ := traced_bind_eq_ok.mp h
    obtain rfl := traced_pure_eq_ok.mp h
    obtain ⟨hmap, hall⟩ := ih hsecs
    have hrun := runCheck_eq_ok hsec
    have hgiven := sectionOf_of_run hrun
    refine ⟨by rw [List.map_cons, hgiven, hmap], fun d hd => ?_⟩
    rcases List.mem_cons.mp hd with rfl | hd
    · rw [hgiven]
      exact hrun
    · exact hall d hd

/-- Every section was given by one of the checks. -/
theorem exists_of_mem_sections {x : Scene} {checks : List Check} {sections : List Section}
    (h : (runChecks x checks).outcome = .ok sections) :
    ∀ sec ∈ sections, ∃ c ∈ checks, (c.run x).outcome = .ok sec := by
  obtain ⟨rfl, hall⟩ := sections_eq_map h
  intro sec hsec
  obtain ⟨c, hc, rfl⟩ := List.mem_map.mp hsec
  exact ⟨c, hc, hall c hc⟩

/-- Every check of a run that ends gave a section of it. -/
theorem exists_section {x : Scene} {checks : List Check} {sections : List Section}
    (h : (runChecks x checks).outcome = .ok sections) :
    ∀ c ∈ checks, ∃ sec ∈ sections, (c.run x).outcome = .ok sec := by
  obtain ⟨rfl, hall⟩ := sections_eq_map h
  exact fun c hc => ⟨sectionOf x c, List.mem_map_of_mem hc, hall c hc⟩

/-- An audit that returns is that of a source root. -/
theorem exists_ofSource (h : (ofSettings fs root s checks).outcome = .ok a) :
    ∃ real, fs.resolve root = .ok real ∧ fs.isDirectory (sourceRoot real s) = .ok true ∧
      (ofSource fs (sourceRoot real s) s checks).outcome = .ok a := by
  unfold ofSettings at h
  obtain ⟨real, hreal, h⟩ := traced_bind_eq_ok.mp h
  unfold ofRoot at h
  obtain ⟨isDir, hdir, h⟩ := traced_bind_eq_ok.mp h
  cases isDir with
  | false => cases h
  | true => exact ⟨real, ofFault_eq_ok.mp hreal, ofFault_eq_ok.mp hdir, h⟩

/-- **The survey behind the audit of a source root**, and what the audit counts. -/
theorem exists_survey {source : Path} (h : (ofSource fs source s checks).outcome = .ok a) :
    ∃ v, (Survey.make fs source s).outcome = .ok v ∧
      (runChecks ⟨fs, s, v⟩ checks).outcome = .ok a.sections ∧
      a.filesWalked = v.files.length ∧ a.pathsInUse = v.used.size ∧
      (s.sourceExtensions.select SourceFile.name v.files).map List.length = .ok a.filesScanned := by
  unfold ofSource at h
  obtain ⟨u, -, h⟩ := traced_bind_eq_ok.mp h
  obtain ⟨v, hv, h⟩ := traced_bind_eq_ok.mp h
  obtain ⟨sections, hsections, h⟩ := traced_bind_eq_ok.mp h
  obtain ⟨scanned, hscanned, h⟩ := traced_bind_eq_ok.mp h
  obtain rfl := traced_pure_eq_ok.mp h
  exact ⟨v, hv, hsections, rfl, rfl, by rw [ofFault_eq_ok.mp hscanned]; rfl⟩

/-- **The survey and the checks behind an audit.** -/
theorem runChecks_of_ofSettings (h : (ofSettings fs root s checks).outcome = .ok a) :
    ∃ real v, fs.resolve root = .ok real ∧
      (Survey.make fs (sourceRoot real s) s).outcome = .ok v ∧
      (runChecks ⟨fs, s, v⟩ checks).outcome = .ok a.sections := by
  obtain ⟨real, hreal, -, h⟩ := exists_ofSource h
  obtain ⟨v, hv, hsections, -⟩ := exists_survey h
  exact ⟨real, v, hreal, hv, hsections⟩

/-- The survey behind an audit, and the checks behind its sections. -/
theorem ofSettings_eq_ok (h : (ofSettings fs root s checks).outcome = .ok a) :
    ∃ real v, fs.resolve root = .ok real ∧
      (Survey.make fs (sourceRoot real s) s).outcome = .ok v ∧
      ∀ sec ∈ a.sections, ∃ c ∈ checks, (Check.run ⟨fs, s, v⟩ c).outcome = .ok sec := by
  obtain ⟨real, v, hreal, hv, hsections⟩ := runChecks_of_ofSettings h
  exact ⟨real, v, hreal, hv, exists_of_mem_sections hsections⟩

/-! ### Outcomes -/

section Outcomes

variable {x y : Scene} {suffixes : List String}

theorem outcome_runCheck (x : Scene) (c : Check) : (runCheck x c).outcome = (c.run x).outcome := by
  unfold runCheck
  rw [Traced.outcome_bind]
  cases (c.run x).outcome <;> rfl

/-- Checks that give the same write down the same. -/
theorem runChecks_eq (h : ∀ c : Check, c.run x = c.run y) (checks : List Check) :
    runChecks x checks = runChecks y checks := by
  induction checks with
  | nil => rfl
  | cons c checks ih =>
    unfold runChecks runCheck
    rw [h, ih]

/-- **Checks that give the same sections, one by one, give the same sections together.** -/
theorem runChecks_congr {checks : List Check}
    (h : ∀ c ∈ checks, (c.run x).outcome = (c.run y).outcome) :
    (runChecks x checks).outcome = (runChecks y checks).outcome := by
  induction checks with
  | nil => rfl
  | cons c checks ih =>
    have hhead : (runCheck x c).outcome = (runCheck y c).outcome := by
      rw [outcome_runCheck, outcome_runCheck, h c List.mem_cons_self]
    refine traced_bind_congr hhead fun sec _ => ?_
    exact traced_bind_congr (ih fun d hd => h d (List.mem_cons_of_mem c hd)) fun secs _ => rfl

theorem exists_runChecks {checks : List Check}
    (h : ∀ c ∈ checks, ∃ sec, (c.run x).outcome = .ok sec) :
    ∃ sections, (runChecks x checks).outcome = .ok sections := by
  induction checks with
  | nil => exact ⟨[], rfl⟩
  | cons c checks ih =>
    obtain ⟨sec, hsec⟩ := h c List.mem_cons_self
    obtain ⟨sections, hsections⟩ := ih fun d hd => h d (List.mem_cons_of_mem c hd)
    refine ⟨sec :: sections, traced_bind_eq_ok.mpr ⟨sec, (outcome_runCheck x c).trans hsec, ?_⟩⟩
    exact traced_bind_eq_ok.mpr ⟨sections, hsections, rfl⟩

/-- Checks that fail for the same reasons, one by one, fail for the same reason together. -/
theorem sameFailure_runChecks {checks : List Check}
    (h : ∀ c ∈ checks, SameFailure (c.run x).outcome (c.run y).outcome) :
    SameFailure (runChecks x checks).outcome (runChecks y checks).outcome := by
  induction checks with
  | nil => exact sameFailure_of_ok _ _
  | cons c checks ih =>
    have hhead : SameFailure (runCheck x c).outcome (runCheck y c).outcome := by
      rw [outcome_runCheck, outcome_runCheck]
      exact h c List.mem_cons_self
    refine hhead.bind fun sec sec' _ _ => ?_
    exact (ih fun d hd => h d (List.mem_cons_of_mem c hd)).bind fun _ _ _ _ =>
      sameFailure_of_ok _ _

/-- **The first check that fails** stops the others. -/
theorem runChecks_eq_error {before : List Check} (after : List Check) {c : Check} {e : Failure}
    (hbefore : ∀ d ∈ before, ∃ sec, (d.run x).outcome = .ok sec)
    (h : (c.run x).outcome = .error e) :
    (runChecks x (before ++ c :: after)).outcome = .error e := by
  induction before with
  | nil => exact traced_bind_eq_error ((outcome_runCheck x c).trans h)
  | cons d before ih =>
    obtain ⟨sec, hsec⟩ := hbefore d List.mem_cons_self
    have hrest := ih fun d' hd' => hbefore d' (List.mem_cons_of_mem d hd')
    rw [List.cons_append, runChecks, Traced.outcome_bind, outcome_runCheck, hsec]
    exact traced_bind_eq_error hrest

/-! ### All checks -/

section All

variable {sec : Section} {e : Failure}

theorem outcome_assets (x : Scene) :
    (Check.run x .assets).outcome = (Traced.ofExcept (Check.assetSection x)).outcome := rfl

/-- If the directory of assets can be listed, all checks give their sections. -/
theorem exists_runChecks_all (hx : x.Fits)
    (hsource : ∃ suffixes, x.settings.sourceExtensions = .listed suffixes)
    (hpage : ∃ suffixes, x.settings.pageExtensions = .listed suffixes)
    (h : Check.assetSection x = .ok sec) :
    ∃ sections, (runChecks x Check.all).outcome = .ok sections := by
  refine exists_runChecks fun c _ => ?_
  by_cases hc : c = .assets
  · exact ⟨sec, by rw [hc, outcome_assets, h]; rfl⟩
  · exact Check.exists_run hx hsource hpage hc

/-- If it cannot be listed, the checks before that give their sections, and then all are stopped. -/
theorem runChecks_all_eq_error (hx : x.Fits)
    (hsource : ∃ suffixes, x.settings.sourceExtensions = .listed suffixes)
    (hpage : ∃ suffixes, x.settings.pageExtensions = .listed suffixes)
    (h : Check.assetSection x = .error e) : (runChecks x Check.all).outcome = .error e := by
  have hbefore : ∀ c ∈ [Check.components, .hooks, .pages, .duplicate, .stylesheet],
      ∃ sec, (c.run x).outcome = .ok sec := by
    intro c hc
    refine Check.exists_run hx hsource hpage ?_
    rintro rfl
    exact absurd hc (by decide)
  have hlast : (Check.run x .assets).outcome = .error e := by
    rw [outcome_assets, h]
    rfl
  exact runChecks_eq_error [] hbefore hlast

/-- All checks give the same in scenes that are alike, if the directory of assets shows the same. -/
theorem runChecks_all_congr (h : x.Alike y)
    (hassets : Check.assetSection x = Check.assetSection y) :
    (runChecks x Check.all).outcome = (runChecks y Check.all).outcome := by
  refine runChecks_congr fun c _ => ?_
  by_cases hc : c = .assets
  · rw [hc, outcome_assets, outcome_assets, hassets]
  · exact Check.run_congr h hc

end All

/-! ### Audits -/

/-- The audit of a project with a source root. -/
theorem outcome_ofSettings {real : Path} (hroot : fs.resolve root = .ok real)
    (hdir : fs.isDirectory (sourceRoot real s) = .ok true) :
    (ofSettings fs root s checks).outcome = (ofSource fs (sourceRoot real s) s checks).outcome := by
  unfold ofSettings
  rw [Traced.outcome_bind, ofFault_eq_ok.mpr hroot]
  show (ofRoot fs real s checks).outcome = _
  unfold ofRoot
  simp only
  rw [Traced.outcome_bind, ofFault_eq_ok.mpr hdir]
  rfl

/-- The audit of a project without a source root. -/
theorem outcome_ofSettings_of_not_isDirectory {real : Path} (hroot : fs.resolve root = .ok real)
    (hdir : fs.isDirectory (sourceRoot real s) = .ok false) :
    (ofSettings fs root s checks).outcome =
      .error (.problem (.noSource (sourceRoot real s) "source directory not found")) := by
  unfold ofSettings
  rw [Traced.outcome_bind, ofFault_eq_ok.mpr hroot]
  show (ofRoot fs real s checks).outcome = _
  unfold ofRoot
  simp only
  rw [Traced.outcome_bind, ofFault_eq_ok.mpr hdir]
  rfl

/-- An audit without a survey. -/
theorem outcome_ofSource_eq_error {source : Path} {e : Failure}
    (h : (Survey.make fs source s).outcome = .error e) :
    (ofSource fs source s checks).outcome = .error e := by
  unfold ofSource
  rw [Traced.outcome_bind]
  exact traced_bind_eq_error h

/-- **An audit is a survey and the sections of its checks.** -/
theorem outcome_ofSource {source : Path} {v : Survey}
    (hx : s.sourceExtensions = .listed suffixes)
    (h : (Survey.make fs source s).outcome = .ok v) :
    (ofSource fs source s checks).outcome =
      (runChecks ⟨fs, s, v⟩ checks).outcome.map fun sections =>
        ⟨sections, v.files.length,
          (v.files.filter fun f => suffixes.any fun e => Text.closes e f.name).length,
          v.used.size⟩ := by
  unfold ofSource
  rw [hx, Traced.outcome_bind]
  show Traced.outcome (Survey.make fs source s >>= _) = _
  rw [Traced.outcome_bind, h]
  show Traced.outcome (runChecks ⟨fs, s, v⟩ checks >>= _) = _
  rw [Traced.outcome_bind]
  cases (runChecks ⟨fs, s, v⟩ checks).outcome <;> rfl

end Outcomes

end Unimported.Audit
