import Unimported.Proofs.Audit.Denied
import Unimported.Proofs.Check.Unread
import Unimported.Proofs.Walk.Shape

/-!
# Audits that meet an unreadable file

A file that may not be read imports nothing, and so does an empty file.  So an audit that meets files
that may not be read counts and judges as if these files were empty.  The entry file alone makes a
difference: an empty one mentions nothing, which is a verdict on everything that is judged by it, but
one that may not be read is no ground for any.

A name that is too long stops an audit whether or not a file can be read.

## Main definitions

* `FileSystem.LeadsAmong` — a path leads to one of some files.

## Main results

* `Audit.specifiers_emptied`, `Audit.make_emptied` — the survey is the one of the empty files.
* `Audit.entryText_of_leadsAmong`, `Audit.entryText_of_not_leadsAmong` — what the entry file says.
* `Audit.sameFailure_emptied`, `Audit.sections_emptied`, `Audit.exists_ofSource_deny` — how the audits
  fail, what they give, and that an unreadable file stops none.
* `Audit.ofSettings_unreadable` — **an unreadable file counts as an empty one.**
* `Audit.ofSettings_lone_longSheet` — a name that is too long stops an audit all the same.
-/

namespace Unimported

open Outcome
open Tree (IsReal)

/-- A path leads to one of the files behind some paths. -/
def FileSystem.LeadsAmong (fs : FileSystem) (D : List Path) (p : Path) : Prop :=
  ∃ loc ∈ fs.located D, fs.locate p = .ok loc

namespace Audit

variable {fs : FileSystem} {D : List Path} {root real source p : Path} {s : Settings}
  {v : Survey} {skip : List String}

section Unreadable

variable (hlinks : fs.tree.Linkless) (hD : fs.AreFiles D)

include hlinks hD

/-! ### The survey -/

/-- **A file that may not be read imports what an empty one does**, nothing. -/
theorem specifiers_emptied (hp : p.IsRooted) (hfile : fs.isFile p = .ok true) :
    Source.specifiers (fs.deny D) p = Source.specifiers (fs.emptied D) p := by
  obtain ⟨loc, bytes, hloc, hnode⟩ := FileSystem.isFile_eq_true.mp hfile
  have hdeny := FileSystem.read_deny hlinks hD hp hloc hnode
  have hempty := FileSystem.read_emptied (D := D) hloc hnode
  unfold Source.specifiers Source.read
  by_cases hmem : loc ∈ fs.located D
  · rw [if_pos hmem] at hdeny hempty
    have hnothing : Import.specifiers (Source.textOf []) = [] := by cbv
    simp only [hdeny, hempty, AccessError.failure, hnothing]
  · rw [if_neg hmem] at hdeny hempty
    simp only [hdeny, hempty]

example : (Source.specifiers (Survey.sample.emptied [⟨.root, ["p", "src", "App.tsx"]⟩])
    ⟨.root, ["p", "src", "App.tsx"]⟩).toOption = some [] := by decide +kernel

/-- **The survey is the one of the empty files.** -/
theorem make_emptied (hwf : fs.tree.WellFormed) (hcwd : IsReal fs.tree fs.cwd)
    (hsource : source.IsRooted) (hdir : fs.isDirectory source = .ok true) :
    (Survey.make (fs.deny D) source s).outcome = (Survey.make (fs.emptied D) source s).outcome := by
  have htraverse := congrArg Traced.outcome
    (Walk.traverse_emptied hwf hlinks hD hsource hdir s.skipDirs)
  have hwf' : (fs.deny D).tree.WellFormed := hwf
  have hcwd' : IsReal (fs.deny D).tree (fs.deny D).cwd := hcwd
  unfold Survey.make
  refine traced_bind_congr htraverse fun paths hpaths => traced_bind_congr ?_ fun used _ => rfl
  obtain ⟨names, found, -, hfound, hstop, rfl⟩ :=
    Walk.located_of_traverse (htraverse.trans hpaths)
  refine Usage.gather_congr_of_specifiers fun p hp _ => ?_
  apply specifiers_emptied hlinks hD
  · exact Walk.isRooted_of_mem_files hwf' hsource hp
  · have hfile := Walk.isFile_of_mem_files hwf' hlinks hcwd' hfound hstop hp
    exact hfile

/-- When the walk ends, the survey can be made. -/
theorem exists_make_deny (hwf : fs.tree.WellFormed) (hsource : source.IsRooted)
    (hdir : fs.isDirectory source = .ok true) {paths : List Path}
    (hpaths : (Walk.traverse fs.opened s.skipDirs source).outcome = .ok paths) :
    ∃ v, (Survey.make (fs.deny D) source s).outcome = .ok v ∧ v.root = source := by
  rw [← Walk.traverse_deny hwf hlinks hD hsource hdir] at hpaths
  have hwf' : (fs.deny D).tree.WellFormed := hwf
  obtain ⟨names, found, -, hfound, hstop, rfl⟩ := Walk.located_of_traverse hpaths
  have hasked : ∀ p ∈ (Walk.ofRoot (fs.deny D) names source).files,
      Usage.CanBeAsked (fs.deny D) s.sourceExtensions p := by
    intro p hp _
    obtain ⟨loc, hloc, -⟩ := Walk.exists_locate_of_mem_files hwf' hlinks hfound hstop hp
    exact Source.exists_specifiers hloc
  obtain ⟨used, hused⟩ := Usage.exists_gather (r := .ofRoot (fs.deny D).cwd source) hasked
  exact ⟨_, Survey.outcome_make hpaths hused, rfl⟩

/-! ### What the checks see -/

omit hlinks in
theorem isFile_of_leadsAmong (h : fs.LeadsAmong D p) : fs.isFile p = .ok true := by
  obtain ⟨loc, hmem, hloc⟩ := h
  obtain ⟨q, hq, hfound⟩ := FileSystem.mem_located.mp hmem
  obtain ⟨found, bytes, hfound', hnode⟩ := FileSystem.isFile_eq_true.mp (hD q hq).2
  obtain rfl := Except.ok.inj (hfound.symm.trans hfound')
  exact FileSystem.isFile_eq_true.mpr ⟨loc, bytes, hloc, hnode⟩

omit hlinks hD in
theorem hasFile_emptied (name : String) :
    Scene.hasFile ⟨fs.deny D, s, v⟩ name = Scene.hasFile ⟨fs.emptied D, s, v⟩ name :=
  congrArg Traced.ofFault ((FileSystem.sameShape_emptied fs D).isFile _)

/-- **An entry file that may not be read says nothing.** -/
theorem entryText_of_leadsAmong (hentry : (v.root.joinText s.entryFile).IsRooted)
    (h : fs.LeadsAmong D (v.root.joinText s.entryFile)) :
    (Scene.entryText ⟨fs.deny D, s, v⟩).outcome = .ok none := by
  have hfile := isFile_of_leadsAmong hD h
  obtain ⟨loc, hmem, hloc⟩ := h
  obtain ⟨found, bytes, hfound, hnode⟩ := FileSystem.isFile_eq_true.mp hfile
  obtain rfl := Except.ok.inj (hloc.symm.trans hfound)
  have hread := FileSystem.read_deny hlinks hD hentry hloc hnode
  rw [if_pos hmem] at hread
  unfold Scene.entryText
  refine traced_bind_eq_ok.mpr ⟨true, ofFault_eq_ok.mpr hfile, ?_⟩
  simp only [Scene.path, Source.read, hread]
  rfl

/-- Any other entry file says what it says where the files are empty. -/
theorem entryText_of_not_leadsAmong (hentry : (v.root.joinText s.entryFile).IsRooted)
    (h : ¬ fs.LeadsAmong D (v.root.joinText s.entryFile)) :
    (Scene.entryText ⟨fs.deny D, s, v⟩).outcome = (Scene.entryText ⟨fs.emptied D, s, v⟩).outcome := by
  unfold Scene.entryText
  refine traced_bind_congr (congrArg Traced.outcome (hasFile_emptied _)) fun present hpresent => ?_
  cases present with
  | false => rfl
  | true =>
    rw [← hasFile_emptied] at hpresent
    obtain ⟨loc, bytes, hloc, hnode⟩ := FileSystem.isFile_eq_true.mp (ofFault_eq_ok.mp hpresent)
    have hloc : fs.locate (v.root.joinText s.entryFile) = .ok loc := hloc
    have hmem : loc ∉ fs.located D := fun hmem => h ⟨loc, hmem, hloc⟩
    have hdeny := FileSystem.read_deny hlinks hD hentry hloc hnode
    have hempty := FileSystem.read_emptied (D := D) hloc hnode
    rw [if_neg hmem] at hdeny hempty
    simp only [Scene.path, Source.read, hdeny, hempty]

/-- **The checks see the same**, apart from the text of the entry file. -/
theorem sameButEntry_emptied (hentry : (v.root.joinText s.entryFile).IsRooted) :
    Scene.SameButEntry ⟨fs.deny D, s, v⟩ ⟨fs.emptied D, s, v⟩ where
  settings := rfl
  survey := rfl
  hasFile := fun name => congrArg Traced.outcome (hasFile_emptied name)
  entryText := by
    by_cases h : fs.LeadsAmong D (v.root.joinText s.entryFile)
    · -- where the files are empty, the entry file is one that can be read
      refine sameFailure_of_exists ⟨_, entryText_of_leadsAmong hlinks hD hentry h⟩ ?_
      have hfile := isFile_of_leadsAmong hD h
      obtain ⟨loc, bytes, hloc, hnode⟩ := FileSystem.isFile_eq_true.mp hfile
      have hread := FileSystem.read_emptied (D := D) hloc hnode
      refine ⟨some (Source.textOf (if loc ∈ fs.located D then [] else bytes)), ?_⟩
      refine traced_bind_eq_ok.mpr ⟨true, ?_, ?_⟩
      · rw [← hasFile_emptied]
        exact ofFault_eq_ok.mpr hfile
      · simp only [Scene.path, Source.read, hread]
        rfl
    · exact .of_eq (entryText_of_not_leadsAmong hlinks hD hentry h)

/-- The directory of assets can be listed alike. -/
theorem assetSection_emptied (hassets : (v.root.joinText s.assetsDir).IsRooted) :
    Check.assetSection ⟨fs.deny D, s, v⟩ = Check.assetSection ⟨fs.emptied D, s, v⟩ := by
  have hshape := FileSystem.sameShape_emptied fs D
  unfold Check.assetSection
  simp only [Scene.path, ← hshape.isDirectory]
  cases hd : (fs.deny D).isDirectory (v.root.joinText s.assetsDir) with
  | error fault => rfl
  | ok isDir =>
    cases isDir with
    | false => rfl
    | true =>
      have hopen := FileSystem.isDenied_deny_of_isDirectory hlinks hD hassets hd
      rw [hshape.list hopen]

/-- A check gives the same section unless it judges by the entry file and this may not be read. -/
theorem run_emptied (hentry : (v.root.joinText s.entryFile).IsRooted)
    (hassets : (v.root.joinText s.assetsDir).IsRooted) {c : Check}
    (hc : c.JudgesByEntry → ¬ fs.LeadsAmong D (v.root.joinText s.entryFile)) :
    (c.run ⟨fs.deny D, s, v⟩).outcome = (c.run ⟨fs.emptied D, s, v⟩).outcome := by
  have hsame := sameButEntry_emptied hlinks hD (s := s) (v := v) hentry
  by_cases hcheck : c = .assets
  · rw [hcheck, outcome_assets, outcome_assets, assetSection_emptied hlinks hD hassets]
  · by_cases hjudges : c.JudgesByEntry
    · have htext := entryText_of_not_leadsAmong hlinks hD hentry (hc hjudges)
      exact Check.run_congr (hsame.alike htext) hcheck
    · exact Check.run_of_sameButEntry hsame hjudges hcheck

/-- In any case it fails for the same reason. -/
theorem sameFailure_run_emptied (hentry : (v.root.joinText s.entryFile).IsRooted)
    (hassets : (v.root.joinText s.assetsDir).IsRooted) (c : Check) :
    SameFailure (c.run ⟨fs.deny D, s, v⟩).outcome (c.run ⟨fs.emptied D, s, v⟩).outcome := by
  by_cases hcheck : c = .assets
  · subst hcheck
    exact .of_eq (run_emptied hlinks hD hentry hassets fun hc => absurd hc (by decide))
  · exact Check.sameFailure_run_of_sameButEntry (sameButEntry_emptied hlinks hD hentry) hcheck

end Unreadable

/-! ### Audits -/

theorem isRooted_entry (hs : s.WellTyped) (h : source.IsRooted) :
    (source.joinText s.entryFile).IsRooted :=
  h.joinText (hs.inside (f := .entryFile) (by decide) rfl).head_ne_slash

theorem isRooted_assets (hs : s.WellTyped) (h : source.IsRooted) :
    (source.joinText s.assetsDir).IsRooted :=
  h.joinText (hs.inside (f := .assetsDir) (by decide) rfl).head_ne_slash

section Audits

variable (hs : s.WellTyped) (hwf : fs.tree.WellFormed) (hlinks : fs.tree.Linkless)
  (hcwd : IsReal fs.tree fs.cwd) (hroot : fs.resolve root = .ok real) (hD : fs.AreFiles D)

include hs hwf hlinks hcwd hroot hD

/-- **An audit returns if and only if it does where the files are empty**, and otherwise it fails for
the same reason. -/
theorem sameFailure_emptied :
    SameFailure (ofSettings (fs.deny D) root s Check.all).outcome
      (ofSettings (fs.emptied D) root s Check.all).outcome := by
  have hshape := FileSystem.sameShape_emptied fs D
  have hsource := isRooted_sourceRoot hs hlinks hcwd hroot
  have hresolve := hshape.resolve root
  unfold ofSettings
  refine SameFailure.bind_of_eq (by rw [hresolve]) fun found hfound => ?_
  rw [← hresolve] at hfound
  obtain rfl : real = found := Except.ok.inj (hroot.symm.trans (ofFault_eq_ok.mp hfound))
  have hdirectory := hshape.isDirectory (sourceRoot real s)
  unfold ofRoot
  refine SameFailure.bind_of_eq (by rw [hdirectory]) fun isDir hisDir => ?_
  cases isDir with
  | false =>
    simp only [Bool.false_eq_true, if_false]
    exact .of_eq rfl
  | true =>
    rw [← hdirectory] at hisDir
    have hdir : fs.isDirectory (sourceRoot real s) = .ok true := ofFault_eq_ok.mp hisDir
    simp only [if_true]
    unfold ofSource
    refine SameFailure.bind_of_eq rfl fun _ _ => ?_
    refine SameFailure.bind_of_eq (make_emptied hlinks hD hwf hcwd hsource hdir) fun v hv => ?_
    obtain ⟨-, -, -, hsame, -⟩ := Survey.make_eq_ok hv
    have hentry := isRooted_entry hs (hsame ▸ hsource)
    have hassets := isRooted_assets hs (hsame ▸ hsource)
    refine (sameFailure_runChecks fun c _ =>
      sameFailure_run_emptied hlinks hD hentry hassets c).bind fun _ _ _ _ => ?_
    exact SameFailure.bind_of_eq rfl fun _ _ => sameFailure_of_ok _ _

/-- **An unreadable file counts as an empty one.**  Two audits that return, the one where files may
not be read and the one where they are empty, count the same and give the same sections.  Only if
the entry file is among the files, the checks against it may differ; then they flag nothing. -/
theorem sections_emptied {a a' : Audit}
    (ha : (ofSettings (fs.deny D) root s Check.all).outcome = .ok a)
    (ha' : (ofSettings (fs.emptied D) root s Check.all).outcome = .ok a') :
    a.filesWalked = a'.filesWalked ∧ a.filesScanned = a'.filesScanned ∧
      a.pathsInUse = a'.pathsInUse ∧
      ∃ given given' : Check → Section, a.sections = Check.all.map given ∧
        a'.sections = Check.all.map given' ∧
        ∀ c, (¬ c.JudgesByEntry → given c = given' c) ∧
          (¬ fs.LeadsAmong D ((sourceRoot real s).joinText s.entryFile) → given c = given' c) ∧
          (fs.LeadsAmong D ((sourceRoot real s).joinText s.entryFile) → c.JudgesByEntry →
            (given c).candidates = []) := by
  have hshape := FileSystem.sameShape_emptied fs D
  have hsource := isRooted_sourceRoot hs hlinks hcwd hroot
  have hroot' : (fs.deny D).resolve root = .ok real := hroot
  obtain ⟨real₁, hreal₁, hdir, ha⟩ := exists_ofSource ha
  obtain ⟨real₂, hreal₂, -, ha'⟩ := exists_ofSource ha'
  obtain rfl := Except.ok.inj (hroot'.symm.trans hreal₁)
  obtain rfl := Except.ok.inj (hroot'.symm.trans ((hshape.resolve root).trans hreal₂))
  obtain ⟨v, hv, hrun, hwalked, hused, hscanned⟩ := exists_survey ha
  obtain ⟨v', hv', hrun', hwalked', hused', hscanned'⟩ := exists_survey ha'
  -- the surveys are the same, and what is counted is told by them
  obtain rfl : v = v' :=
    Except.ok.inj (hv.symm.trans ((make_emptied hlinks hD hwf hcwd hsource hdir).trans hv'))
  refine ⟨hwalked.trans hwalked'.symm, Except.ok.inj (hscanned.symm.trans hscanned'),
    hused.trans hused'.symm, ?_⟩
  obtain ⟨-, -, -, hsame, -⟩ := Survey.make_eq_ok hv
  have hentry := isRooted_entry hs (hsame ▸ hsource)
  have hassets := isRooted_assets hs (hsame ▸ hsource)
  obtain ⟨hmap, hall⟩ := sections_eq_map hrun
  obtain ⟨hmap', hall'⟩ := sections_eq_map hrun'
  refine ⟨_, _, hmap, hmap', fun c => ?_⟩
  have hmem := Check.mem_all c
  rw [← hsame]
  have hgiven : (c.JudgesByEntry → ¬ fs.LeadsAmong D (v.root.joinText s.entryFile)) →
      sectionOf ⟨fs.deny D, s, v⟩ c = sectionOf ⟨fs.emptied D, s, v⟩ c := by
    intro hc
    have hsec := run_emptied hlinks hD hentry hassets hc
    rw [hall c hmem, hall' c hmem] at hsec
    exact Except.ok.inj hsec
  refine ⟨fun hc => hgiven fun hjudges => absurd hjudges hc, fun h => hgiven fun _ => h,
    fun h hjudges => ?_⟩
  have htext := entryText_of_leadsAmong hlinks hD hentry h
  exact Check.candidates_of_unread hjudges htext (hall c hmem)

omit hcwd hroot in
/-- **Unreadable files stop nothing**: if the walk ends and no name is refused as too long, the audit
returns. -/
theorem exists_ofSource_deny (hsource : source.IsRooted) (hdir : fs.isDirectory source = .ok true)
    {paths : List Path} (hpaths : (Walk.traverse fs.opened s.skipDirs source).outcome = .ok paths)
    (hnames : ∀ name ∈ s.asked, fs.locate (source.joinText name) ≠ .error .nameTooLong) :
    ∃ a, (ofSource (fs.deny D) source s Check.all).outcome = .ok a := by
  obtain ⟨suffixes, hx⟩ := hs.sourceExtensions
  obtain ⟨v, hv, hsame⟩ := exists_make_deny hlinks hD hwf hsource hdir hpaths
  have hfits : Scene.Fits ⟨fs.deny D, s, v⟩ := fun name hname => by
    rw [Scene.path, hsame]
    exact hnames name hname
  obtain ⟨sec, hsec⟩ : ∃ sec, Check.assetSection ⟨fs.deny D, s, v⟩ = .ok sec := by
    rcases Check.assetSection_cases hfits with ⟨hd, hdenied, -⟩ | ⟨-, hsec⟩
    · -- the directory of assets is no file
      have hassets := isRooted_assets hs (hsame ▸ hsource : v.root.IsRooted)
      have hopen := FileSystem.isDenied_deny_of_isDirectory hlinks hD hassets hd
      rw [Scene.path, hopen] at hdenied
      cases hdenied
    · exact hsec
  obtain ⟨sections, hsections⟩ := exists_runChecks_all hfits ⟨suffixes, hx⟩ hs.pageExtensions hsec
  rw [outcome_ofSource hx hv, hsections]
  exact ⟨_, rfl⟩

/-- **An unreadable file counts as an empty one.**  Where files may not be read an audit fails for
the reason for which it does where they are empty, or both return: then they count the same, and
give the same sections unless the entry file is one of the files.  If it is, the checks against it
flag nothing.  No unreadable file keeps an audit from returning. -/
theorem ofSettings_unreadable :
    SameFailure (ofSettings (fs.deny D) root s Check.all).outcome
        (ofSettings (fs.emptied D) root s Check.all).outcome ∧
      (∀ a a', (ofSettings (fs.deny D) root s Check.all).outcome = .ok a →
        (ofSettings (fs.emptied D) root s Check.all).outcome = .ok a' →
        a.filesWalked = a'.filesWalked ∧ a.filesScanned = a'.filesScanned ∧
          a.pathsInUse = a'.pathsInUse ∧
          ∃ given given' : Check → Section, a.sections = Check.all.map given ∧
            a'.sections = Check.all.map given' ∧
            ∀ c, (¬ c.JudgesByEntry → given c = given' c) ∧
              (¬ fs.LeadsAmong D ((sourceRoot real s).joinText s.entryFile) →
                given c = given' c) ∧
              (fs.LeadsAmong D ((sourceRoot real s).joinText s.entryFile) → c.JudgesByEntry →
                (given c).candidates = [])) ∧
      (∀ paths, fs.isDirectory (sourceRoot real s) = .ok true →
        (Walk.traverse fs.opened s.skipDirs (sourceRoot real s)).outcome = .ok paths →
        (∀ name ∈ s.asked, fs.locate ((sourceRoot real s).joinText name) ≠ .error .nameTooLong) →
        ∃ a, (ofSettings (fs.deny D) root s Check.all).outcome = .ok a) := by
  have hroot' : (fs.deny D).resolve root = .ok real := hroot
  refine ⟨sameFailure_emptied hs hwf hlinks hcwd hroot hD,
    fun a a' => sections_emptied hs hwf hlinks hcwd hroot hD, fun paths hdir hpaths hnames => ?_⟩
  rw [outcome_ofSettings hroot' hdir]
  exact exists_ofSource_deny hs hwf hlinks hD (isRooted_sourceRoot hs hlinks hcwd hroot) hdir hpaths
    hnames

end Audits

/-! ### The files of a walk -/

/-- The files of a walk are files on paths from the root. -/
theorem areFiles_of_walked (hwf : fs.tree.WellFormed) (hlinks : fs.tree.Linkless)
    (hcwd : IsReal fs.tree fs.cwd) (hsource : source.IsRooted) {paths : List Path}
    (hpaths : (Walk.traverse fs.opened s.skipDirs source).outcome = .ok paths)
    (hD : ∀ p ∈ D, p ∈ paths) : fs.AreFiles D := by
  have hwf' : fs.opened.tree.WellFormed := hwf
  have hcwd' : IsReal fs.opened.tree fs.opened.cwd := hcwd
  obtain ⟨names, found, -, hfound, hstop, rfl⟩ := Walk.located_of_traverse hpaths
  intro p hp
  have hfile := Walk.isFile_of_mem_files hwf' hlinks hcwd' hfound hstop (hD p hp)
  exact ⟨Walk.isRooted_of_mem_files hwf' hsource (hD p hp), hfile⟩

/-! ### The small project without its entry file -/

/-- The entry file of the small project. -/
def sampleEntry : Path := ⟨.root, ["p", "src", "App.tsx"]⟩

/-- Where the small project cannot be read, no hook is in use, and nothing is said of its entry
file. -/
theorem ofSettings_unreadable_sample :
    ∃ a a', (ofSettings (Survey.sample.deny [sampleEntry]) ⟨.current, []⟩ .default
        Check.all).outcome = .ok a ∧
      (ofSettings (Survey.sample.emptied [sampleEntry]) ⟨.current, []⟩ .default
        Check.all).outcome = .ok a' ∧
      a.filesWalked = 3 ∧ a'.filesWalked = 3 ∧
      a.candidates.map Candidate.file = ["hooks/useA.ts", "hooks/useB.ts"] ∧
      a'.candidates.map Candidate.file = ["hooks/useA.ts", "hooks/useB.ts"] := by
  have hdir : Survey.sample.isDirectory (sourceRoot ⟨.root, ["p"]⟩ .default) = .ok true :=
    eq_ok_of_toOption (by decide)
  have hpaths : (Walk.traverse Survey.sample.opened Settings.default.skipDirs
      (sourceRoot ⟨.root, ["p"]⟩ .default)).outcome = .ok [sampleEntry,
        ⟨.root, ["p", "src", "hooks", "useA.ts"]⟩, ⟨.root, ["p", "src", "hooks", "useB.ts"]⟩] :=
    eq_ok_of_toOption (by decide +kernel)
  have hrooted := isRooted_sourceRoot Settings.wellTyped_default Survey.linkless_sample
    Survey.isReal_sample Survey.resolve_sample
  have hD := areFiles_of_walked Survey.wellFormed_sample Survey.linkless_sample Survey.isReal_sample
    hrooted hpaths (D := [sampleEntry]) (by decide)
  obtain ⟨hfailure, hsame, hreturns⟩ := ofSettings_unreadable Settings.wellTyped_default
    Survey.wellFormed_sample Survey.linkless_sample Survey.isReal_sample Survey.resolve_sample hD
  obtain ⟨a, ha⟩ := hreturns _ hdir hpaths (fits_of_isFile (by decide))
  obtain ⟨a', ha'⟩ := SameFailure.exists_ok (fun e => (hfailure e).symm) ha
  obtain ⟨hwalked, -⟩ := hsame a a' ha ha'
  have hrun : (ofSettings (Survey.sample.deny [sampleEntry]) ⟨.current, []⟩ .default
      Check.all).outcome.toOption.map (fun a => (a.filesWalked, a.candidates.map Candidate.file)) =
        some (3, ["hooks/useA.ts", "hooks/useB.ts"]) := by decide +kernel
  have hrun' : (ofSettings (Survey.sample.emptied [sampleEntry]) ⟨.current, []⟩ .default
      Check.all).outcome.toOption.map (fun a => a.candidates.map Candidate.file) =
        some ["hooks/useA.ts", "hooks/useB.ts"] := by decide +kernel
  rw [ha] at hrun
  rw [ha'] at hrun'
  obtain ⟨hcount, hfiles⟩ := Prod.mk.inj (Option.some.inj hrun)
  exact ⟨a, a', ha, ha', hcount, hwalked.symm.trans hcount, hfiles, Option.some.inj hrun'⟩

/-! ### A name that is too long, and a file that may not be read -/

/-- A project that has nothing but its entry file. -/
def lone : FileSystem where
  tree := Tree.insert ⟨[]⟩ ["src", "App.tsx"] (.file [])
  cwd := []

/-- The entry file of the project. -/
def loneEntry : Path := ⟨.root, ["src", "App.tsx"]⟩

/-- The survey of the project when the entry file may not be read. -/
def loneSurvey : Survey := ⟨⟨.root, ["src"]⟩, [⟨loneEntry, .other⟩], .empty⟩

theorem make_lone :
    (Survey.make (lone.deny [loneEntry]) ⟨.root, ["src"]⟩ longSheet).outcome = .ok loneSurvey := by
  have htraverse : (Walk.traverse (lone.deny [loneEntry]) longSheet.skipDirs
      ⟨.root, ["src"]⟩).outcome = .ok [loneEntry] := eq_ok_of_toOption (by decide +kernel)
  have hgather : (Usage.gather (lone.deny [loneEntry]) (.ofRoot [] ⟨.root, ["src"]⟩)
      (Usage.isSource longSheet.sourceExtensions) [loneEntry]).outcome.toOption.map
        StringSet.members = some [] := by decide
  obtain ⟨used, hused, hmembers⟩ := exists_ok_of_map hgather
  have hempty : used = .empty := StringSet.ext fun target => by
    rw [← StringSet.mem_members, hmembers]
    simp
  rw [hempty] at hused
  exact Survey.outcome_make htraverse hused

/-- A machine cannot be asked for the stylesheet in the project. -/
theorem isFile_lone :
    (lone.deny [loneEntry]).isFile ⟨.root, ["src", longName]⟩ = .error .nameTooLong := by
  refine FileSystem.isFile_of_nameTooLong (FileSystem.locate_of_error
    (eq_error_of_reason? (by decide +kernel)) (fun n hn => ?_) fun _ => rfl)
  rcases List.mem_cons.mp hn with rfl | hn
  · decide
  · rw [List.mem_singleton.mp hn]
    exact isName_longName.no_zero

/-- **A name that is too long stops an audit that an unreadable file does not.** -/
theorem ofSettings_lone_longSheet :
    longSheet.WellTyped ∧ lone.tree.Linkless ∧
      (Walk.traverse lone.opened longSheet.skipDirs ⟨.root, ["src"]⟩).outcome = .ok [loneEntry] ∧
      lone.LeadsAmong [loneEntry] (Path.joinText ⟨.root, ["src"]⟩ longSheet.entryFile) ∧
      (ofSettings (lone.deny [loneEntry]) ⟨.current, []⟩ longSheet Check.all).outcome =
        .error (.fault .nameTooLong) := by
  have hentry : Path.joinText ⟨.root, ["src"]⟩ longSheet.entryFile = loneEntry := by decide
  have hloc : lone.locate loneEntry = .ok ["src", "App.tsx"] := eq_ok_of_toOption (by decide)
  refine ⟨wellTyped_longSheet, Tree.linkless_of_entries (by decide),
    eq_ok_of_toOption (by decide +kernel), ?_, ?_⟩
  · rw [hentry]
    exact ⟨_, FileSystem.mem_located.mpr ⟨loneEntry, List.mem_cons_self, hloc⟩, hloc⟩
  · have hroot : (lone.deny [loneEntry]).resolve ⟨.current, []⟩ = .ok ⟨.root, []⟩ :=
      eq_ok_of_toOption (by decide)
    have hsource : sourceRoot ⟨.root, []⟩ longSheet = ⟨.root, ["src"]⟩ := by decide
    have hdir : (lone.deny [loneEntry]).isDirectory (sourceRoot ⟨.root, []⟩ longSheet) = .ok true :=
      eq_ok_of_toOption (by decide)
    have hbefore : ∀ c ∈ [Check.components, .hooks, .pages, .duplicate], ∃ sec,
        (c.run ⟨lone.deny [loneEntry], longSheet, loneSurvey⟩).outcome = .ok sec := by
      have hall : ∀ c ∈ [Check.components, .hooks, .pages, .duplicate],
          (c.run ⟨lone.deny [loneEntry], longSheet,
            loneSurvey⟩).outcome.toOption.isSome := by decide
      intro c hc
      exact exists_ok_of_isSome (hall c hc)
    have hsheet : (Check.run ⟨lone.deny [loneEntry], longSheet, loneSurvey⟩ .stylesheet).outcome =
        .error (.fault .nameTooLong) := by
      have hpath : Path.joinText ⟨.root, ["src"]⟩ longName = ⟨.root, ["src", longName]⟩ := by
        rw [Path.joinText, ofString_longName]
        rfl
      refine traced_bind_eq_error ?_
      show (Traced.ofFault ((lone.deny [loneEntry]).isFile
        (Path.joinText ⟨.root, ["src"]⟩ longName))).outcome = _
      rw [hpath, isFile_lone]
      rfl
    have hchecks := runChecks_eq_error [.assets] hbefore hsheet
    rw [outcome_ofSettings hroot hdir, hsource, outcome_ofSource rfl make_lone,
      show Check.all = [.components, .hooks, .pages, .duplicate] ++ .stylesheet :: [.assets] from rfl,
      hchecks]
    rfl

end Audit

end Unimported
