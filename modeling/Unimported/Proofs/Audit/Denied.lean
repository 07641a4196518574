import Unimported.Proofs.Audit.Sections
import Unimported.Proofs.Check.Alike
import Unimported.Proofs.Check.Answered
import Unimported.Proofs.Import.Designates
import Unimported.Proofs.Survey.Made
import Unimported.Proofs.Walk.Denied

/-!
# Audits that meet a denied directory

An audit goes into the directories of its walk, and at last into the directory of assets.  If one of
them is denied, the audit is stopped, by the first one; a part of the files would not do to say that
something is unused.  Any other directory may be denied, and the audit gives what it gives when
nothing is.

## Main definitions

* `Failure.IsUnlistable` — a directory that cannot be listed.
* `Audit.Fits` — nothing that an audit asks about is refused as too long, and its walk gets to the
  ground.

## Main results

* `Audit.make_opened` — when nothing is denied, the survey can be made.
* `Audit.alike_opened` — what is denied does not show in a check that lists nothing.
* `Audit.denied_exact` — **an unlistable directory stops an audit, and nothing else does.**
-/

namespace Unimported

open Outcome
open Path (IsNormalText)
open Settings (IsInside)
open Tree (IsReal)

/-- A failure that says that a directory cannot be listed. -/
def Failure.IsUnlistable (f : Failure) : Prop := ∃ p : Problem, f = .problem p ∧ p.kind = .directory

namespace Audit

/-- Nothing that an audit asks about is refused as too long, neither an entry of a directory of the
walk nor a name that the settings give, and no directory of the walk lies too deep. -/
structure Fits (fs : FileSystem) (s : Settings) (skip : List String) (source : Path) : Prop where
  entries : Walk.Fits fs skip source
  names : ∀ name ∈ s.asked, fs.locate (source.joinText name) ≠ .error .nameTooLong

variable {fs : FileSystem} {root real source : Path} {s : Settings} {skip : List String}

/-- Nor is a name refused of which a check asks on the finished survey. -/
theorem Fits.scene (h : Fits fs s skip source) {v : Survey} (hroot : v.root = source) :
    Scene.Fits ⟨fs, s, v⟩ := fun name hname => by
  rw [Scene.path, hroot]
  exact h.names name hname

/-- No name that the checks ask about is refused if of each it can be told whether it is a file. -/
theorem fits_of_isFile (h : ∀ name ∈ s.asked, (fs.isFile (source.joinText name)).toOption.isSome) :
    ∀ name ∈ s.asked, fs.locate (source.joinText name) ≠ .error .nameTooLong := by
  intro name hname hlong
  have hsome := h name hname
  rw [FileSystem.isFile_of_nameTooLong hlong] at hsome
  cases hsome

/-- The source root is reached from the root of the tree. -/
theorem isRooted_sourceRoot (hs : s.WellTyped) (hlinks : fs.tree.Linkless)
    (hcwd : IsReal fs.tree fs.cwd) (hroot : fs.resolve root = .ok real) :
    (sourceRoot real s).IsRooted :=
  (FileSystem.isRooted_of_resolve hlinks hcwd hroot).joinText
    (hs.inside (f := .sourceDir) (by decide) rfl).head_ne_slash

/-! ### Surveys and checks -/

/-- **When nothing is denied, too long or too deep, the survey can be made.** -/
theorem make_opened (hwf : fs.tree.WellFormed) (hlinks : fs.tree.Linkless)
    (hcwd : IsReal fs.tree fs.cwd) (hdir : fs.isDirectory source = .ok true)
    (hskip : s.skipDirs = .texts skip) (hfits : Walk.Fits fs skip source) :
    ∃ v, (Survey.make fs.opened source s).outcome = .ok v ∧ v.root = source := by
  have htraverse : (Walk.traverse fs.opened s.skipDirs source).outcome =
      .ok (Walk.ofRoot fs.opened skip source).files := by
    rw [hskip, Walk.outcome_traverse, Walk.opened_stopped hwf hlinks hcwd hdir hfits]
  have hread : ∀ p ∈ (Walk.ofRoot fs.opened skip source).files,
      Usage.CanBeAsked fs.opened s.sourceExtensions p := by
    intro p hp _
    obtain ⟨loc, hloc, -⟩ := Walk.exists_located_of_mem_files hwf hlinks hfits hp
    have hloc' : fs.opened.locate p = .ok loc := hloc
    exact Source.exists_specifiers hloc'
  obtain ⟨used, hused⟩ := Usage.exists_gather (r := .ofRoot fs.cwd source) hread
  exact ⟨_, Survey.outcome_make htraverse hused, rfl⟩

/-- A path to something that is no directory is read as if nothing were denied. -/
theorem read_opened (hlinks : fs.tree.Linkless)
    (hdenied : ∀ d ∈ fs.denied, fs.isDirectory d = .ok true) {p : Path} (hp : p.IsRooted)
    {loc : Location} (hloc : fs.locate p = .ok loc) (hd : fs.tree.hasDirectory loc = false) :
    Source.read fs p = Source.read fs.opened p := by
  have hopen := FileSystem.isDenied_eq_false hlinks hdenied hp hloc hd
  unfold Source.read
  rw [FileSystem.read_eq, hopen]
  rfl

/-- If only directories are denied, the entry file says what it says when nothing is. -/
theorem entryText_opened (hs : s.WellTyped) (hlinks : fs.tree.Linkless)
    (hdenied : ∀ d ∈ fs.denied, fs.isDirectory d = .ok true) {v : Survey} (hroot : v.root.IsRooted) :
    (Scene.entryText ⟨fs, s, v⟩).outcome = (Scene.entryText ⟨fs.opened, s, v⟩).outcome := by
  have hrooted : (v.root.joinText s.entryFile).IsRooted :=
    hroot.joinText (hs.inside (f := .entryFile) (by decide) rfl).head_ne_slash
  unfold Scene.entryText
  refine traced_bind_congr rfl fun present hpresent => ?_
  cases present with
  | false => rfl
  | true =>
    -- a file stands there, so it is no directory
    obtain ⟨loc, bytes, hloc, hnode⟩ := FileSystem.isFile_eq_true.mp (ofFault_eq_ok.mp hpresent)
    have hread := read_opened hlinks hdenied hrooted hloc
      (by rw [Tree.hasDirectory, show fs.tree.node? loc = _ from hnode]; rfl)
    simp only [Scene.path, hread]

/-- **What is denied does not show in a check that lists nothing**, if only directories are. -/
theorem alike_opened (hs : s.WellTyped) (hlinks : fs.tree.Linkless)
    (hdenied : ∀ d ∈ fs.denied, fs.isDirectory d = .ok true) {v : Survey} (hroot : v.root.IsRooted) :
    Scene.Alike ⟨fs, s, v⟩ ⟨fs.opened, s, v⟩ where
  settings := rfl
  files := rfl
  hasFile := fun _ _ => rfl
  entryText := entryText_opened hs hlinks hdenied hroot
  hooks := fun _ _ => rfl
  components := fun _ _ => rfl

/-- Nor does it show in the one that lists a directory, if that is not denied. -/
theorem assetSection_opened {v : Survey} (hnames : Scene.Fits ⟨fs, s, v⟩)
    (hopen : fs.isDirectory (v.root.joinText s.assetsDir) = .ok true →
      fs.isDenied (v.root.joinText s.assetsDir) = false) :
    Check.assetSection ⟨fs, s, v⟩ = Check.assetSection ⟨fs.opened, s, v⟩ := by
  obtain ⟨b, hd⟩ := FileSystem.exists_isDirectory
    (hnames s.assetsDir (by simp [Settings.asked]))
  cases b with
  | false => rw [Check.assetSection_absent hd, Check.assetSection_absent (x := ⟨fs.opened, s, v⟩) hd]
  | true =>
    obtain ⟨l, hl⟩ := Walk.exists_list_eq_ok hd (hopen hd)
    have hopened : fs.opened.list (v.root.joinText s.assetsDir) = .ok l := by
      have hlist := FileSystem.list_eq fs (v.root.joinText s.assetsDir)
      rw [hopen hd] at hlist
      exact hlist.symm.trans hl
    rw [Check.assetSection_listed hd hl,
      Check.assetSection_listed (x := ⟨fs.opened, s, v⟩) hd hopened]

/-- With no directory of the walk denied, the survey is the one that is made when nothing is. -/
theorem make_eq_opened (hwf : fs.tree.WellFormed) (hlinks : fs.tree.Linkless)
    (hdenied : ∀ d ∈ fs.denied, fs.isDirectory d = .ok true) (hsource : source.IsRooted)
    (hskip : s.skipDirs = .texts skip) (hfits : Walk.Fits fs skip source)
    (hwalk : Walk.ofRoot fs skip source = Walk.ofRoot fs.opened skip source) :
    (Survey.make fs source s).outcome = (Survey.make fs.opened source s).outcome := by
  have htraverse : (Walk.traverse fs s.skipDirs source).outcome =
      (Walk.traverse fs.opened s.skipDirs source).outcome := by
    rw [hskip, Walk.outcome_traverse, Walk.outcome_traverse, hwalk]
  unfold Survey.make
  refine traced_bind_congr htraverse fun paths hpaths => traced_bind_congr ?_ fun used _ => rfl
  rw [hskip, Walk.outcome_traverse] at hpaths
  have hfiles : paths = (Walk.ofRoot fs.opened skip source).files := by
    split at hpaths
    · exact (Except.ok.inj hpaths).symm
    · cases hpaths
  refine Usage.gather_congr_of_specifiers fun p hp _ => ?_
  rw [hfiles] at hp
  obtain ⟨loc, hloc, hd⟩ := Walk.exists_located_of_mem_files hwf hlinks hfits hp
  have hwf' : fs.opened.tree.WellFormed := hwf
  unfold Source.specifiers
  rw [read_opened hlinks hdenied (Walk.isRooted_of_mem_files hwf' hsource hp) hloc hd]

/-! ### Audits -/

/-- The audit of a source root whose directory of assets is there and denied. -/
def AssetsDenied (fs : FileSystem) (s : Settings) (source : Path) : Prop :=
  fs.isDirectory (source.joinText s.assetsDir) = .ok true ∧
    fs.isDenied (source.joinText s.assetsDir) = true

/-- A directory that cannot be listed stopped an audit. -/
def IsStopped (outcome : Except Failure Audit) : Prop := ∃ f, outcome = .error f ∧ f.IsUnlistable

theorem isStopped_unlistable (dir : Path) : IsStopped (.error (Walk.unlistable dir .denied)) :=
  ⟨_, rfl, _, rfl, rfl⟩

/-- **When nothing is denied, too long or too deep, an audit returns.** -/
theorem exists_opened (hs : s.WellTyped) (hwf : fs.tree.WellFormed) (hlinks : fs.tree.Linkless)
    (hcwd : IsReal fs.tree fs.cwd) (hdir : fs.isDirectory source = .ok true)
    (hskip : s.skipDirs = .texts skip) (hfits : Fits fs s skip source) :
    ∃ v a, (Survey.make fs.opened source s).outcome = .ok v ∧ v.root = source ∧
      (ofSource fs.opened source s Check.all).outcome = .ok a := by
  obtain ⟨suffixes, hx⟩ := hs.sourceExtensions
  obtain ⟨v, hv, hroot⟩ := make_opened hwf hlinks hcwd hdir hskip hfits.entries
  have hnames : Scene.Fits ⟨fs.opened, s, v⟩ := hfits.scene hroot
  obtain ⟨sections, hsections⟩ : ∃ sections,
      (runChecks ⟨fs.opened, s, v⟩ Check.all).outcome = .ok sections := by
    rcases Check.assetSection_cases hnames with ⟨-, hopen, -⟩ | ⟨-, sec, hsec⟩
    · cases hopen
    · exact exists_runChecks_all hnames ⟨suffixes, hx⟩ hs.pageExtensions hsec
  have houtcome : (ofSource fs.opened source s Check.all).outcome = _ := outcome_ofSource hx hv
  rw [hsections] at houtcome
  exact ⟨v, _, hv, hroot, houtcome⟩

/-- What stops a walk stops the audit. -/
theorem ofSource_of_stopped {f : Failure} (hskip : s.skipDirs = .texts skip)
    (hstop : (Walk.ofRoot fs skip source).stopped = some f) (checks : List Check) :
    (ofSource fs source s checks).outcome = .error f := by
  have htraverse : (Walk.traverse fs s.skipDirs source).outcome = .error f := by
    rw [hskip, Walk.outcome_traverse, hstop]
  exact outcome_ofSource_eq_error (traced_bind_eq_error htraverse)

/-- A directory of the walk that is denied stops the audit. -/
theorem ofSource_of_meetsDenied (hwf : fs.tree.WellFormed) (hlinks : fs.tree.Linkless)
    (hcwd : IsReal fs.tree fs.cwd) (hdir : fs.isDirectory source = .ok true)
    (hskip : s.skipDirs = .texts skip) (hfits : Walk.Fits fs skip source)
    (h : Walk.MeetsDenied fs skip source) (checks : List Check) :
    ∃ dir, Walk.FirstDenied fs skip source dir ∧
      (ofSource fs source s checks).outcome = .error (Walk.unlistable dir .denied) := by
  rcases Walk.ofRoot_denied hwf hlinks hcwd hdir hfits with ⟨dir, hfirst, hstop⟩ | ⟨hnone, -⟩
  · exact ⟨dir, hfirst, ofSource_of_stopped hskip hstop checks⟩
  · exact absurd h hnone

/-- With no directory of the walk denied, the audit is stopped by the directory of assets, or it
gives what it gives when nothing is denied. -/
theorem ofSource_of_not_meetsDenied (hs : s.WellTyped) (hwf : fs.tree.WellFormed)
    (hlinks : fs.tree.Linkless) (hcwd : IsReal fs.tree fs.cwd)
    (hdenied : ∀ d ∈ fs.denied, fs.isDirectory d = .ok true) (hsource : source.IsRooted)
    (hdir : fs.isDirectory source = .ok true) (hskip : s.skipDirs = .texts skip)
    (hfits : Fits fs s skip source) (h : ¬ Walk.MeetsDenied fs skip source) :
    (AssetsDenied fs s source ∧ (ofSource fs source s Check.all).outcome =
      .error (Walk.unlistable (source.joinText s.assetsDir) .denied)) ∨
    (¬ AssetsDenied fs s source ∧ (ofSource fs source s Check.all).outcome =
      (ofSource fs.opened source s Check.all).outcome) := by
  obtain ⟨suffixes, hx⟩ := hs.sourceExtensions
  obtain ⟨v, a, hv, rfl, -⟩ := exists_opened hs hwf hlinks hcwd hdir hskip hfits
  have hwalk : Walk.ofRoot fs skip v.root = Walk.ofRoot fs.opened skip v.root := by
    rcases Walk.ofRoot_denied hwf hlinks hcwd hdir hfits.entries with
      ⟨dir, hfirst, -⟩ | ⟨-, -, hwalk⟩
    · exact absurd ⟨dir, hfirst.visible, hfirst.denied⟩ h
    · exact hwalk
  have hmake : (Survey.make fs v.root s).outcome = .ok v :=
    (make_eq_opened hwf hlinks hdenied hsource hskip hfits.entries hwalk).trans hv
  have halike := alike_opened hs hlinks hdenied (v := v) hsource
  rw [outcome_ofSource hx hmake, outcome_ofSource hx hv]
  rcases Check.assetSection_cases (x := ⟨fs, s, v⟩) hfits.names with
    ⟨hd, hden, hsec⟩ | ⟨hopen, sec, hsec⟩
  · refine Or.inl ⟨⟨hd, hden⟩, ?_⟩
    rw [runChecks_all_eq_error (x := ⟨fs, s, v⟩) hfits.names ⟨suffixes, hx⟩ hs.pageExtensions hsec]
    rfl
  · refine Or.inr ⟨fun ⟨hd, hden⟩ => ?_, ?_⟩
    · have hfalse : fs.isDenied (v.root.joinText s.assetsDir) = false := hopen hd
      rw [hfalse] at hden
      cases hden
    · rw [runChecks_all_congr halike (assetSection_opened hfits.names hopen)]

/-- **An unlistable directory stops an audit, and nothing else does.**  The audit is stopped if a
directory of its walk or the directory of assets is denied, by the first directory of the walk if
there is one; otherwise it gives what it gives when nothing is denied. -/
theorem denied_exact (hs : s.WellTyped) (hwf : fs.tree.WellFormed) (hlinks : fs.tree.Linkless)
    (hcwd : IsReal fs.tree fs.cwd) (hdenied : ∀ d ∈ fs.denied, fs.isDirectory d = .ok true)
    (hroot : fs.resolve root = .ok real) (hdir : fs.isDirectory (sourceRoot real s) = .ok true)
    (hskip : s.skipDirs = .texts skip) (hfits : Fits fs s skip (sourceRoot real s)) :
    ∃ a, (ofSettings fs.opened root s Check.all).outcome = .ok a ∧
      (IsStopped (ofSettings fs root s Check.all).outcome ↔
        Walk.MeetsDenied fs skip (sourceRoot real s) ∨ AssetsDenied fs s (sourceRoot real s)) ∧
      (Walk.MeetsDenied fs skip (sourceRoot real s) →
        ∃ dir, Walk.FirstDenied fs skip (sourceRoot real s) dir ∧
          (ofSettings fs root s Check.all).outcome = .error (Walk.unlistable dir .denied)) ∧
      (¬ IsStopped (ofSettings fs root s Check.all).outcome →
        (ofSettings fs root s Check.all).outcome = .ok a) := by
  have hsource := isRooted_sourceRoot hs hlinks hcwd hroot
  obtain ⟨v, a, -, -, ha⟩ := exists_opened hs hwf hlinks hcwd hdir hskip hfits
  have hmeets := fun h => ofSource_of_meetsDenied hwf hlinks hcwd hdir hskip hfits.entries h Check.all
  have hroot' : fs.opened.resolve root = .ok real := hroot
  have hdir' : fs.opened.isDirectory (sourceRoot real s) = .ok true := hdir
  rw [outcome_ofSettings hroot hdir, outcome_ofSettings hroot' hdir']
  refine ⟨a, ha, ⟨fun hstopped => ?_, fun h => ?_⟩, hmeets, fun hgoes => ?_⟩
  · -- it is the directory of assets unless it is one of the walk
    by_cases hmeet : Walk.MeetsDenied fs skip (sourceRoot real s)
    · exact Or.inl hmeet
    · rcases ofSource_of_not_meetsDenied hs hwf hlinks hcwd hdenied hsource hdir hskip hfits hmeet with
        ⟨hassets, -⟩ | ⟨-, hsame⟩
      · exact Or.inr hassets
      · obtain ⟨f, hf, -⟩ := hstopped
        rw [hsame, ha] at hf
        cases hf
  · by_cases hmeet : Walk.MeetsDenied fs skip (sourceRoot real s)
    · obtain ⟨dir, -, herror⟩ := hmeets hmeet
      rw [herror]
      exact isStopped_unlistable dir
    · have hassets := h.resolve_left hmeet
      rcases ofSource_of_not_meetsDenied hs hwf hlinks hcwd hdenied hsource hdir hskip hfits hmeet with
        ⟨-, herror⟩ | ⟨hnot, -⟩
      · rw [herror]
        exact isStopped_unlistable _
      · exact absurd hassets hnot
  · have hmeet : ¬ Walk.MeetsDenied fs skip (sourceRoot real s) := by
      intro hmeet
      obtain ⟨dir, -, herror⟩ := hmeets hmeet
      exact hgoes (herror ▸ isStopped_unlistable dir)
    rcases ofSource_of_not_meetsDenied hs hwf hlinks hcwd hdenied hsource hdir hskip hfits hmeet with
      ⟨-, herror⟩ | ⟨-, hsame⟩
    · exact absurd (herror ▸ isStopped_unlistable _) hgoes
    · rw [hsame, ha]

/-! ### Directories that are denied, and a name that is too long -/

/-- A project in which three directories are denied; the walk does not come to one of them. -/
def guarded : FileSystem where
  tree := ((((Tree.insert ⟨[]⟩ ["p", "src", "App.tsx"] (.file [])).insert
    ["p", "src", ".git"] .directory).insert ["p", "src", "a", "b"] .directory).insert
    ["p", "src", "a", "b", "x.ts"] (.file [])).insert ["p", "src", "c"] .directory
  cwd := ["p"]
  denied := [⟨.root, ["p", "src", ".git"]⟩, ⟨.root, ["p", "src", "c"]⟩,
    ⟨.root, ["p", "src", "a", "b"]⟩]

/-- The directory that stops the audit is the first that the walk comes to. -/
theorem denied_exact_guarded :
    ∃ a, (ofSettings guarded.opened ⟨.current, []⟩ .default Check.all).outcome = .ok a ∧
      Walk.FirstDenied guarded ["node_modules"] ⟨.root, ["p", "src"]⟩
        ⟨.root, ["p", "src", "a", "b"]⟩ ∧
      (ofSettings guarded ⟨.current, []⟩ .default Check.all).outcome =
        .error (Walk.unlistable ⟨.root, ["p", "src", "a", "b"]⟩ .denied) := by
  have hwf : guarded.tree.WellFormed := by decide +kernel
  have hlinks : guarded.tree.Linkless := Tree.linkless_of_entries (by decide +kernel)
  have hcwd : IsReal guarded.tree guarded.cwd :=
    .entry (n := .directory) .root (by decide +kernel) (by decide +kernel)
      (by decide +kernel) (by simp)
  have hroot : guarded.resolve ⟨.current, []⟩ = .ok ⟨.root, ["p"]⟩ :=
    eq_ok_of_toOption (by decide +kernel)
  have hsource : sourceRoot ⟨.root, ["p"]⟩ .default = ⟨.root, ["p", "src"]⟩ := by decide +kernel
  have hdir : guarded.isDirectory (sourceRoot ⟨.root, ["p"]⟩ .default) = .ok true :=
    eq_ok_of_toOption (by decide +kernel)
  have hdenied : ∀ d ∈ guarded.denied, guarded.isDirectory d = .ok true := by
    have hall : ∀ d ∈ guarded.denied, (guarded.isDirectory d).toOption = some true := by
      decide +kernel
    exact fun d hd => eq_ok_of_toOption (hall d hd)
  have hfits : Fits guarded .default ["node_modules"] (sourceRoot ⟨.root, ["p"]⟩ .default) := by
    refine ⟨?_, fun name hname hlong => ?_⟩
    · rw [hsource]
      exact Walk.fits_of_entries hwf hlinks ⟨rfl, by decide⟩ (by decide) (by decide +kernel)
        (by decide +kernel)
    · have hasked : ∀ name ∈ Settings.default.asked, (guarded.isFile
          ((sourceRoot ⟨.root, ["p"]⟩ .default).joinText name)).toOption.isSome := by
        decide +kernel
      have hsome := hasked name hname
      rw [FileSystem.isFile_of_nameTooLong hlong] at hsome
      cases hsome
  have hmeets : Walk.MeetsDenied guarded ["node_modules"] (sourceRoot ⟨.root, ["p"]⟩ .default) := by
    refine ⟨⟨.root, ["p", "src", "c"]⟩, ⟨["c"], fun n hn => ?_, ?_, ?_⟩, by decide +kernel⟩
    · rw [List.mem_singleton.mp hn]
      exact ⟨by decide +kernel, by decide +kernel⟩
    · rw [hsource]
      rfl
    · exact eq_ok_of_toOption (by decide +kernel)
  obtain ⟨a, ha, -, hfirst, -⟩ := denied_exact Settings.wellTyped_default hwf hlinks hcwd hdenied
    hroot hdir rfl hfits
  obtain ⟨dir, hdirFirst, herror⟩ := hfirst hmeets
  have hrun : (ofSettings guarded ⟨.current, []⟩ .default Check.all).outcome =
      .error (Walk.unlistable ⟨.root, ["p", "src", "a", "b"]⟩ .denied) :=
    eq_error_of_reason? (by decide +kernel)
  have hsame := Except.error.inj (herror.symm.trans hrun)
  obtain rfl : dir = ⟨.root, ["p", "src", "a", "b"]⟩ :=
    (Problem.directory.inj (Failure.problem.inj hsame)).1
  exact ⟨a, ha, hsource ▸ hdirFirst, herror⟩

/-- A name that is longer than any entry's can be. -/
def longName : String := String.ofList (List.replicate 256 'a')

theorem toList_longName : longName.toList = List.replicate 256 'a' := String.toList_ofList

/-- Settings with a stylesheet that no machine can be asked for. -/
def longSheet : Settings := { Settings.default with assetsDir := ".assets", stylesheet := longName }

/-- It is a name all the same. -/
theorem isName_longName : Path.IsName longName := by
  have hplain : ∀ c ∈ longName.toList, c = 'a' := fun c hc => by
    rw [toList_longName] at hc
    exact List.eq_of_mem_replicate hc
  have hne : ∀ {s : String}, s.toList.length ≠ 256 → longName ≠ s := by
    rintro s hs rfl
    exact hs (by rw [toList_longName, List.length_replicate])
  exact ⟨hne (by decide), hne (by decide), hne (by decide),
    fun h => absurd (hplain _ h) (by decide), fun h => absurd (hplain _ h) (by decide)⟩

theorem head_longName : longName.toList.head? ≠ some '/' := by
  rw [toList_longName]
  decide

theorem ofString_longName : Path.ofString longName = ⟨.current, [longName]⟩ := by
  refine Path.ofString_of_names head_longName ?_
  rw [Path.pieces_of_not_mem isName_longName.no_slash]
  exact Path.filter_isSegment (by simpa using isName_longName)

/-- A project whose assets are hidden from the walk, and denied. -/
def hiddenAssets : FileSystem where
  tree := Tree.insert ⟨[]⟩ ["src", ".assets", "i.png"] (.file [])
  cwd := []
  denied := [⟨.root, ["src", ".assets"]⟩]

/-- A machine cannot even be asked for the stylesheet. -/
theorem isFile_longName : hiddenAssets.isFile ⟨.root, ["src", longName]⟩ = .error .nameTooLong := by
  refine FileSystem.isFile_of_nameTooLong (FileSystem.locate_of_error
    (eq_error_of_reason? (by decide +kernel)) (fun n hn => ?_) fun _ => rfl)
  rcases List.mem_cons.mp hn with rfl | hn
  · decide
  · rw [List.mem_singleton.mp hn]
    exact isName_longName.no_zero

theorem isInside_longName : IsInside longName where
  not_blank := by
    rw [Text.allBlank, toList_longName, List.all_replicate]
    decide
  relative := by
    rw [Text.opens, toList_longName]
    decide
  no_backslash := by
    rw [toList_longName]
    exact fun h => absurd (List.eq_of_mem_replicate h) (by decide)

theorem wellTyped_longSheet : longSheet.WellTyped := by
  refine Settings.wellTyped_default.of_names (fun f hf name hv => ?_) rfl rfl rfl
  by_cases hsheet : f = .stylesheet
  · subst hsheet
    exact Value.text.inj hv ▸ isInside_longName
  · by_cases hassets : f = .assetsDir
    · subst hassets
      exact Value.text.inj hv ▸ ⟨by decide +kernel, by decide +kernel, by decide +kernel⟩
    · -- the other names are the defaults
      have hsame : Settings.default.value f = longSheet.value f := by
        cases f with
        | stylesheet => exact absurd rfl hsheet
        | assetsDir => exact absurd rfl hassets
        | _ => rfl
      exact Settings.wellTyped_default.inside hf (hsame.trans hv)

/-- **A name that is too long stops an audit before the directory of assets can.** -/
theorem not_stopped_longSheet :
    longSheet.WellTyped ∧ IsNormalText longSheet.sourceDir ∧ IsNormalText longSheet.assetsDir ∧
      hiddenAssets.tree.Linkless ∧ AssetsDenied hiddenAssets longSheet ⟨.root, ["src"]⟩ ∧
      (ofSettings hiddenAssets ⟨.current, []⟩ longSheet Check.all).outcome =
        .error (.fault .nameTooLong) ∧
      ¬ IsStopped (ofSettings hiddenAssets ⟨.current, []⟩ longSheet Check.all).outcome := by
  have hroot : hiddenAssets.resolve ⟨.current, []⟩ = .ok ⟨.root, []⟩ :=
    eq_ok_of_toOption (by decide +kernel)
  have hsource : sourceRoot ⟨.root, []⟩ longSheet = ⟨.root, ["src"]⟩ := by decide +kernel
  have hdir : hiddenAssets.isDirectory (sourceRoot ⟨.root, []⟩ longSheet) = .ok true :=
    eq_ok_of_toOption (by decide +kernel)
  have htraverse : (Walk.traverse hiddenAssets longSheet.skipDirs ⟨.root, ["src"]⟩).outcome = .ok [] :=
    eq_ok_of_toOption (by decide +kernel)
  have hmake : (Survey.make hiddenAssets ⟨.root, ["src"]⟩ longSheet).outcome =
      .ok ⟨⟨.root, ["src"]⟩, [], .empty⟩ := Survey.outcome_make htraverse rfl
  have hbefore : ∀ c ∈ [Check.components, .hooks, .pages, .duplicate], ∃ sec,
      (c.run ⟨hiddenAssets, longSheet, ⟨⟨.root, ["src"]⟩, [], .empty⟩⟩).outcome = .ok sec := by
    have hall : ∀ c ∈ [Check.components, .hooks, .pages, .duplicate],
        (c.run ⟨hiddenAssets, longSheet, ⟨⟨.root, ["src"]⟩, [], .empty⟩⟩).outcome.toOption.isSome := by
      decide +kernel
    intro c hc
    obtain ⟨sec, hsec⟩ := Option.isSome_iff_exists.mp (hall c hc)
    exact ⟨sec, eq_ok_of_toOption hsec⟩
  have hsheet : (Check.run ⟨hiddenAssets, longSheet, ⟨⟨.root, ["src"]⟩, [], .empty⟩⟩
      .stylesheet).outcome = .error (.fault .nameTooLong) := by
    refine traced_bind_eq_error ?_
    have hpath : Path.joinText ⟨.root, ["src"]⟩ longName = ⟨.root, ["src", longName]⟩ := by
      rw [Path.joinText, ofString_longName]
      rfl
    show (Traced.ofFault (hiddenAssets.isFile (Path.joinText ⟨.root, ["src"]⟩ longName))).outcome = _
    rw [hpath, isFile_longName]
    rfl
  have houtcome : (ofSettings hiddenAssets ⟨.current, []⟩ longSheet Check.all).outcome =
      .error (.fault .nameTooLong) := by
    have hchecks := runChecks_eq_error [.assets] hbefore hsheet
    rw [outcome_ofSettings hroot hdir, hsource, outcome_ofSource rfl hmake,
      show Check.all = [.components, .hooks, .pages, .duplicate] ++ .stylesheet :: [.assets] from rfl]
    rw [hchecks]
    rfl
  refine ⟨wellTyped_longSheet, by decide +kernel, by decide +kernel,
    Tree.linkless_of_entries (by decide +kernel), ⟨eq_ok_of_toOption (by decide +kernel),
    by decide +kernel⟩, houtcome, ?_⟩
  rw [houtcome]
  rintro ⟨f, hf, p, rfl, -⟩
  cases hf

end Audit

end Unimported
