import Unimported.Proofs.Audit.Sections
import Unimported.Proofs.Check.Labels
import Unimported.Proofs.Check.Verdicts
import Unimported.Proofs.Walk.Growth

/-!
# Audits of a project that has grown

A new file never makes another file look unused.  The walk finds what it found before, so every
target in use stays in use, and nothing but the new file is judged that was not judged before.  The
new file may import something, and then fewer hooks and components are flagged; it may open a
directory, be hidden, or be no source file at all.

## Main results

* `Audit.judged_of_withFile` — what is judged when a file was added was judged before, unless it is
  the new file.
* `Audit.used_withFile` — what was in use is in use when a file was added.
* `Audit.candidates_withFile` — **what is flagged when a file was added was flagged before.**
-/

namespace Unimported.Audit

open Outcome
open Path (IsName)
open Tree (IsReal)
open Usage (Mentions PutsInUse)

variable {fs : FileSystem} {loc : Location} {bytes : List UInt8} {root real source : Path}
  {s : Settings} {v v' : Survey} {paths paths' : List Path}

section WithFile

variable (hwf : fs.tree.WellFormed) (hlinks : fs.tree.Linkless) (hground : fs.tree.Grounded)
  (hcwd : IsReal fs.tree fs.cwd) (hloc : ∀ n ∈ loc, IsName n) (hnew : fs.tree.node? loc = none)

include hwf hlinks hground hcwd hloc hnew

/-! ### What is judged -/

/-- **What is judged when a file was added was judged before**, unless it is the new file. -/
theorem judged_of_withFile (hp : (Walk.traverse fs s.skipDirs source).outcome = .ok paths)
    (hp' : (Walk.traverse (fs.withFile loc bytes) s.skipDirs source).outcome = .ok paths')
    {c : Category} {p : Path} (hj : p ∈ Survey.judged s source c paths')
    (hold : (fs.withFile loc bytes).locate p ≠ .ok loc) : p ∈ Survey.judged s source c paths := by
  obtain ⟨names, found, hnames, hfound, hstop, rfl⟩ := Walk.located_of_traverse hp
  obtain ⟨names', -, hnames', -, hstop', rfl⟩ := Walk.located_of_traverse hp'
  obtain rfl := Except.ok.inj (hnames.symm.trans hnames')
  obtain ⟨hmem, hcategory⟩ := List.mem_filter.mp hj
  exact List.mem_filter.mpr ⟨Walk.mem_files_of_withFile hwf hlinks hground hcwd hloc hnew hfound
    hstop hstop' hmem hold, hcategory⟩

/-- What is flagged of the judged files when a file was added was flagged before, unless it is the
new file, if what counts as in use only grows. -/
theorem mem_unused_of_withFile (hp : (Walk.traverse fs s.skipDirs source).outcome = .ok paths)
    (hp' : (Walk.traverse (fs.withFile loc bytes) s.skipDirs source).outcome = .ok paths')
    {c : Category} {P P' : Path → Prop} [DecidablePred P] [DecidablePred P'] (hP : ∀ p, P p → P' p)
    {flag : Path → Candidate} {k : Candidate}
    (hleads : ∀ p ∈ Survey.judged s source c paths', source.joinText (flag p).file = p)
    (hk : k ∈ ((Survey.judged s source c paths').filter fun p => ¬ P' p).map flag)
    (hold : (fs.withFile loc bytes).locate (source.joinText k.file) ≠ .ok loc) :
    k ∈ ((Survey.judged s source c paths).filter fun p => ¬ P p).map flag := by
  obtain ⟨p, hmem, rfl⟩ := List.mem_map.mp hk
  obtain ⟨hjudged, hunused⟩ := List.mem_filter.mp hmem
  rw [hleads p hjudged] at hold
  apply List.mem_map_of_mem
  apply List.mem_filter.mpr
  refine ⟨judged_of_withFile hwf hlinks hground hcwd hloc hnew hp hp' hjudged hold, ?_⟩
  exact decide_eq_true fun hin => of_decide_eq_true hunused (hP p hin)

/-! ### What is in use -/

variable (hv : (Survey.make fs source s).outcome = .ok v)
  (hv' : (Survey.make (fs.withFile loc bytes) source s).outcome = .ok v')

include hv hv'

/-- **What was in use is in use when a file was added.** -/
theorem used_withFile {target : String} (h : target ∈ v.used) : target ∈ v'.used := by
  obtain ⟨paths, hpaths, hgather, -⟩ := Survey.make_eq_ok hv
  obtain ⟨paths', hpaths', hgather', -⟩ := Survey.make_eq_ok hv'
  obtain ⟨names, found, hnames, hfound, hstop, rfl⟩ := Walk.located_of_traverse hpaths
  obtain ⟨names', -, hnames', -, hstop', rfl⟩ := Walk.located_of_traverse hpaths'
  obtain rfl := Except.ok.inj (hnames.symm.trans hnames')
  obtain ⟨p, hp, hread, text, htext, specifier, hspec, hresolve⟩ :=
    (Usage.mem_of_gather hgather target).mp h
  have hp' := Walk.mem_files_withFile hwf hlinks hground hcwd hloc hnew hfound hstop hstop' hp
  refine (Usage.mem_of_gather hgather' target).mpr
    ⟨p, hp', hread, text, ?_, specifier, hspec, hresolve⟩
  obtain ⟨place, hplace, -⟩ := Walk.exists_locate_of_mem_files hwf hlinks hfound hstop hp
  have hsame := FileSystem.read_withFile hground hnew hwf hcwd bytes hplace
  unfold Source.read at htext ⊢
  rwa [hsame]

theorem mentions_withFile {needle : String} (h : Mentions v.used needle) :
    Mentions v'.used needle := by
  obtain ⟨target, htarget, hin⟩ := h
  exact ⟨target, used_withFile hwf hlinks hground hcwd hloc hnew hv hv' htarget, hin⟩

/-- A candidate of the checks on hooks and components was one before, unless it is the new file. -/
theorem mem_candidates_of_withFile (hs : s.WellTyped) {c : Check} (hc : c = .hooks ∨ c = .components)
    {sec sec' : Section} (hsec : (c.run ⟨fs, s, v⟩).outcome = .ok sec)
    (hsec' : (c.run ⟨fs.withFile loc bytes, s, v'⟩).outcome = .ok sec') {k : Candidate}
    (hk : k ∈ sec'.candidates)
    (hold : (fs.withFile loc bytes).locate (source.joinText k.file) ≠ .ok loc) :
    k ∈ sec.candidates := by
  obtain ⟨paths, hp, -, -, hf⟩ := Survey.make_eq_ok hv
  obtain ⟨paths', hp', -, -, hf'⟩ := Survey.make_eq_ok hv'
  have hwf' : (fs.withFile loc bytes).tree.WellFormed := hwf.insert hloc _
  have hmentions : ∀ needle, Mentions v.used needle → Mentions v'.used needle := fun _ =>
    mentions_withFile hwf hlinks hground hcwd hloc hnew hv hv'
  rcases hc with rfl | rfl
  · obtain ⟨found, hfound, hverdicts⟩ := Check.hookVerdicts fs hs hwf hp hf
    obtain ⟨found', hfound', hverdicts'⟩ :=
      Check.hookVerdicts (fs.withFile loc bytes) hs hwf' hp' hf'
    obtain rfl := Except.ok.inj (hfound.symm.trans (ofFault_eq_ok.mp hsec))
    obtain rfl := Except.ok.inj (hfound'.symm.trans (ofFault_eq_ok.mp hsec'))
    rw [hverdicts'.candidates] at hk
    rw [hverdicts.candidates]
    exact mem_unused_of_withFile hwf hlinks hground hcwd hloc hnew hp hp'
      (fun p => hmentions _) hverdicts'.leads hk hold
  · obtain ⟨found, hfound, hverdicts⟩ := Check.componentVerdicts fs hs hwf hp hf
    obtain ⟨found', hfound', hverdicts'⟩ :=
      Check.componentVerdicts (fs.withFile loc bytes) hs hwf' hp' hf'
    obtain rfl := Except.ok.inj (hfound.symm.trans (ofFault_eq_ok.mp hsec))
    obtain rfl := Except.ok.inj (hfound'.symm.trans (ofFault_eq_ok.mp hsec'))
    rw [hverdicts'.candidates] at hk
    rw [hverdicts.candidates]
    exact mem_unused_of_withFile hwf hlinks hground hcwd hloc hnew hp hp'
      (fun p hin => hin.imp (hmentions _) (hmentions _)) hverdicts'.leads hk hold

end WithFile

/-! ### Audits -/

/-- **What is flagged when a file was added was flagged before.**  Of the hooks and components that
an audit flags on the machine with a new file, each but the new file itself is flagged without it. -/
theorem candidates_withFile {checks : List Check} {a a' : Audit} (hs : s.WellTyped)
    (hwf : fs.tree.WellFormed) (hlinks : fs.tree.Linkless) (hground : fs.tree.Grounded)
    (hcwd : IsReal fs.tree fs.cwd) (hloc : ∀ n ∈ loc, IsName n) (hnew : fs.tree.node? loc = none)
    (ha : (ofSettings fs root s checks).outcome = .ok a)
    (ha' : (ofSettings (fs.withFile loc bytes) root s checks).outcome = .ok a') :
    ∃ real, fs.resolve root = .ok real ∧
      ∀ k ∈ a'.candidates, k.label = "Hook" ∨ k.label = "UI Component" →
        (fs.withFile loc bytes).locate ((sourceRoot real s).joinText k.file) ≠ .ok loc →
        k ∈ a.candidates := by
  obtain ⟨real, v, hreal, hv, hrun⟩ := runChecks_of_ofSettings ha
  obtain ⟨real', v', hreal', hv', hrun'⟩ := runChecks_of_ofSettings ha'
  have hlinks' := FileSystem.linkless_withFile hground hnew hlinks bytes
  obtain rfl := FileSystem.resolve_unique hlinks hlinks' rfl hreal hreal'
  refine ⟨real, hreal, fun k hk hlabel hold => ?_⟩
  obtain ⟨sec', hmem', hk⟩ := List.mem_flatMap.mp hk
  obtain ⟨c, hc, hsec'⟩ := exists_of_mem_sections hrun' sec' hmem'
  -- the label tells which check flagged the file, and the check was run before
  have hcheck : c = .hooks ∨ c = .components := by
    have hc := Check.label_of_run hsec' k hk
    rcases hlabel with hl | hl
    · exact Or.inl (Check.eq_hooks_of_label (hl ▸ hc))
    · exact Or.inr (Check.eq_components_of_label (hl ▸ hc))
  obtain ⟨sec, hmem, hsec⟩ := exists_section hrun c hc
  exact List.mem_flatMap.mpr ⟨sec, hmem, mem_candidates_of_withFile hwf hlinks hground hcwd hloc hnew
    hv hv' hs hcheck hsec hsec' hk hold⟩

/-- In the small project a third hook changes nothing about the one that is flagged. -/
theorem candidates_withFile_sample :
    ∃ a a', (ofSettings Survey.sample ⟨.current, []⟩ .default Check.all).outcome = .ok a ∧
      (ofSettings (Survey.sample.withFile ["p", "src", "hooks", "useC.ts"] []) ⟨.current, []⟩
        .default Check.all).outcome = .ok a' ∧
      a'.candidates.map Candidate.file = ["hooks/useB.ts", "hooks/useC.ts"] ∧
      ⟨"hooks/useB.ts", "Hook", "Not imported in any file"⟩ ∈ a.candidates := by
  have hcandidates : (ofSettings (Survey.sample.withFile ["p", "src", "hooks", "useC.ts"] [])
      ⟨.current, []⟩ .default Check.all).outcome.toOption.map (fun a => a.candidates) =
        some [⟨"hooks/useB.ts", "Hook", "Not imported in any file"⟩,
          ⟨"hooks/useC.ts", "Hook", "Not imported in any file"⟩] := by decide +kernel
  have hsome : (ofSettings Survey.sample ⟨.current, []⟩ .default
      Check.all).outcome.toOption.isSome := by decide +kernel
  obtain ⟨a, ha⟩ := exists_ok_of_isSome hsome
  obtain ⟨a', ha', hall⟩ := exists_ok_of_map hcandidates
  obtain ⟨real, hreal', hflagged⟩ := candidates_withFile Settings.wellTyped_default
    Survey.wellFormed_sample Survey.linkless_sample (by decide) Survey.isReal_sample (by decide)
    (by decide) ha ha'
  obtain rfl := Except.ok.inj (Survey.resolve_sample.symm.trans hreal')
  refine ⟨a, a', ha, ha', by rw [hall]; rfl, ?_⟩
  refine hflagged _ (by rw [hall]; exact List.mem_cons_self) (Or.inl rfl) fun hnew => ?_
  -- the flagged hook is at another location
  have hplace : ((Survey.sample.withFile ["p", "src", "hooks", "useC.ts"] []).locate
      ((sourceRoot ⟨.root, ["p"]⟩ .default).joinText "hooks/useB.ts")).toOption =
        some ["p", "src", "hooks", "useB.ts"] := by decide
  rw [hnew] at hplace
  exact absurd (Option.some.inj hplace) (by decide)

end Unimported.Audit
