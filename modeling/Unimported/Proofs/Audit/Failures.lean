import Unimported.Proofs.Audit.Denied
import Unimported.Proofs.Walk.Coverage

/-!
# What an audit fails with

Whatever an audit asks a machine may go wrong in a way of its own: links dangle and lead in circles,
directories are denied, names are missing.  All of this is answered or told as a problem, with one
exception, the very first question: where the project root really is.  If links lead from it around
in a loop, or if it holds the zero character, the audit is stopped by a fault.

The bounds of the machine are another matter: on the length of names and paths, and on how deep
directories stand inside each other.  A machine refuses what is longer or deeper, and no step is
prepared for this, so here it is assumed that nothing is refused.  Faults may also
stem from settings that are no sequences of texts; such settings are admitted in the steps, and left
out at the end.

## Main definitions

* `Audit.InBounds` — nothing that an audit asks for is refused as too long or too deep.
* `Audit.Mismatched` — a table of extensions, and a file on which it is tried.
* `Audit.Expected` — what can stop an audit within the bounds.

## Main results

* `Audit.failsOnly_make`, `Audit.failsOnly_run` — what stops a survey, and a check.
* `Audit.failsOnly_ofSource` — what stops the audit of a source root.
* `Tree.canonical_eq_error` — a canonical form fails for two reasons.
* `Audit.failures_exact` — **an audit fails with problems only, unless its root cannot be found.**
-/

namespace Unimported

open Outcome
open Tree (IsReal)

namespace Audit

/-- Nothing that an audit asks for is refused as too long or too deep: neither the source root, nor
what the walk below it asks for, nor a name that the settings give. -/
structure InBounds (fs : FileSystem) (s : Settings) (skip : List String) (source : Path) : Prop where
  root : fs.locate source ≠ .error .nameTooLong
  walk : Walk.InBounds fs skip source
  names : ∀ name ∈ s.asked, fs.locate (source.joinText name) ≠ .error .nameTooLong

/-- Extensions that are no endings as a whole, and a file that they are tried on: any file of the
walk for the one setting, a page for the other. -/
def Mismatched (s : Settings) (source : Path) (files : List Path) : Prop :=
  (s.sourceExtensions.ending? = none ∧ files ≠ []) ∨
    (s.pageExtensions.ending? = none ∧ ∃ f ∈ files, Category.ofPath s source f = .page)

/-- What can stop the audit of a source root within the bounds: a directory that is denied, or
extensions that cannot be tried on the files of the walk. -/
def Expected (fs : FileSystem) (s : Settings) (source : Path) (files : List Path) (e : Failure) :
    Prop :=
  (∃ dir, fs.isDirectory dir = .ok true ∧ fs.isDenied dir = true ∧ e = Walk.unlistable dir .denied) ∨
    (e = .fault .notSuffix ∧ Mismatched s source files)

end Audit

/-! ### Surveys -/

namespace Walk

variable {fs : FileSystem} {skip : List String} {source : Path}

/-- The path of a file that a walk finds can be one. -/
theorem locate_ne_zeroCharacter_of_mem_files (hwf : fs.tree.WellFormed) {real : Location}
    (hroot : fs.locate source = .ok real) {f : Path} (hf : f ∈ (ofRoot fs skip source).files) :
    fs.locate f ≠ .error .zeroCharacter := by
  obtain ⟨way, name, hway, hname, rfl⟩ := below_of_mem_files hwf hf
  obtain ⟨⟨k, -, hlead⟩, -⟩ := FileSystem.locate_eq_ok.mp hroot
  refine FileSystem.locate_ne_zeroCharacter fun n hn => ?_
  rcases List.mem_append.mp hn with hn | hn
  · rcases List.mem_append.mp hn with hn | hn
    · exact FileSystem.no_zero_of_leadsIn hwf hlead n hn
    · exact (hway n hn).1.no_zero
  · exact List.mem_singleton.mp hn ▸ hname.no_zero

end Walk

namespace Audit

variable {fs : FileSystem} {s : Settings} {skip : List String} {root source : Path}

/-- The files that a walk is asked for are those that it finds. -/
theorem files_of_traverse (hskip : Walk.skipNames s.skipDirs = .ok skip) {paths : List Path}
    (h : (Walk.traverse fs s.skipDirs source).outcome = .ok paths) :
    (Walk.ofRoot fs skip source).files = paths := by
  obtain ⟨names, hnames, -, hfiles⟩ := Walk.traverse_eq_ok h
  obtain rfl := Except.ok.inj (hskip.symm.trans hnames)
  exact hfiles

/-- Within the bounds, the walk below a source root starts, and only a denied directory stops it. -/
theorem denied_of_traverse (hwf : fs.tree.WellFormed) (hcwd : IsReal fs.tree fs.cwd)
    (hdir : fs.isDirectory source = .ok true) (hskip : Walk.skipNames s.skipDirs = .ok skip)
    (hbounds : InBounds fs s skip source) {e : Failure}
    (h : (Walk.traverse fs s.skipDirs source).outcome = .error e) :
    ∃ dir, fs.isDirectory dir = .ok true ∧ fs.isDenied dir = true ∧
      e = Walk.unlistable dir .denied := by
  have htrail : Walk.trail fs s.skipDirs source = Walk.ofRoot fs skip source := by
    unfold Walk.trail
    rw [hskip]
  unfold Walk.traverse Walk.Trail.traced at h
  rw [htrail] at h
  simp only at h
  split at h
  · cases h
  · next failure hstop =>
    obtain rfl := Except.error.inj h
    exact Walk.denied_of_ofRoot_stopped hwf hcwd hdir hbounds.walk hstop

/-- **Only a denied directory stops a survey** within the bounds. -/
theorem failsOnly_make (hwf : fs.tree.WellFormed) (hcwd : IsReal fs.tree fs.cwd)
    (hdir : fs.isDirectory source = .ok true) (hskip : Walk.skipNames s.skipDirs = .ok skip)
    (hbounds : InBounds fs s skip source) :
    FailsOnly (Expected fs s source (Walk.ofRoot fs skip source).files)
      (Survey.make fs source s).outcome := by
  obtain ⟨real, hreal, -⟩ := FileSystem.isDirectory_eq_true.mp hdir
  have hwalk : FailsOnly (Expected fs s source (Walk.ofRoot fs skip source).files)
      (Walk.traverse fs s.skipDirs source).outcome := fun e he =>
    Or.inl (denied_of_traverse hwf hcwd hdir hskip hbounds he)
  unfold Survey.make
  refine hwalk.bind fun paths hpaths => ?_
  have hread : ∀ p ∈ paths, Usage.CanBeAsked fs s.sourceExtensions p := fun p hp _ =>
    Source.exists_specifiers_of_locate
      (Walk.locate_ne_zeroCharacter_of_mem_files hwf hreal (files_of_traverse hskip hpaths ▸ hp))
  refine FailsOnly.bind (failsOnly_of_exists (Usage.exists_gather hread)) fun used _ => ?_
  exact failsOnly_of_exists ⟨_, rfl⟩

/-- The files of a survey are those of the walk. -/
theorem files_of_make (hskip : Walk.skipNames s.skipDirs = .ok skip) {v : Survey}
    (h : (Survey.make fs source s).outcome = .ok v) :
    v.root = source ∧
      v.files = (Walk.ofRoot fs skip source).files.map (SourceFile.ofPath s source) := by
  obtain ⟨paths, hpaths, -, hroot, hfiles⟩ := Survey.make_eq_ok h
  exact ⟨hroot, by rw [hfiles, files_of_traverse hskip hpaths]⟩

end Audit

/-! ### Checks -/

/-- Extensions are tried in vain when they are no ending and there is something to try them on. -/
theorem Extensions.select_eq_error {α : Type} {x : Extensions} {name : α → String} {as : List α}
    {f : Fault} :
    x.select name as = .error f ↔ f = .notSuffix ∧ x.ending? = none ∧ as ≠ [] := by
  unfold Extensions.select
  cases x.ending? with
  | some test => simp
  | none =>
    cases as with
    | nil => simp
    | cons a as => simp [eq_comm]

namespace Audit

variable {fs : FileSystem} {s : Settings} {skip : List String} {root source : Path} {v : Survey}
  {files : List Path}

/-- Asking a survey for the files of a category fails only when its extensions are tried in vain. -/
theorem exists_of_filesIn_eq_error {c : Category} {x : Extensions} {f : Fault}
    (hfiles : v.files = files.map (SourceFile.ofPath s source)) (h : v.filesIn c x = .error f) :
    f = .notSuffix ∧ x.ending? = none ∧ ∃ p ∈ files, Category.ofPath s source p = c := by
  obtain ⟨hf, hx, hne⟩ := Extensions.select_eq_error.mp h
  refine ⟨hf, hx, ?_⟩
  obtain ⟨g, hg⟩ := List.exists_mem_of_ne_nil _ hne
  obtain ⟨hmem, hc⟩ := List.mem_filter.mp hg
  rw [hfiles] at hmem
  obtain ⟨p, hp, rfl⟩ := List.mem_map.mp hmem
  exact ⟨p, hp, of_decide_eq_true hc⟩

/-- Components and hooks are told by the extensions of source files. -/
theorem expected_of_filesIn {c : Category} {f : Fault}
    (hfiles : v.files = files.map (SourceFile.ofPath s source))
    (h : v.filesIn c s.sourceExtensions = .error f) : Expected fs s source files (.fault f) := by
  obtain ⟨rfl, hx, p, hp, -⟩ := exists_of_filesIn_eq_error hfiles h
  exact Or.inr ⟨rfl, Or.inl ⟨hx, List.ne_nil_of_mem hp⟩⟩

theorem failsOnly_pageSection (hscene : Scene.Fits ⟨fs, s, v⟩)
    (hfiles : v.files = files.map (SourceFile.ofPath s source)) :
    FailsOnly (Expected fs s source files) (Check.pageSection ⟨fs, s, v⟩).outcome := by
  unfold Check.pageSection
  refine FailsOnly.bind (failsOnly_ofFault fun f hf => ?_) fun pages _ => ?_
  · obtain ⟨rfl, hx, hpage⟩ := exists_of_filesIn_eq_error hfiles hf
    exact Or.inr ⟨rfl, Or.inr ⟨hx, hpage⟩⟩
  · refine failsOnly_of_exists ?_
    obtain ⟨text, htext⟩ := Scene.exists_entryText hscene
    split
    · exact ⟨_, rfl⟩
    · rw [Traced.outcome_bind, htext]
      cases text with
      | none => exact ⟨_, rfl⟩
      | some text => exact ⟨_, rfl⟩

/-- **What stops a check**: the directory of assets may be denied, and extensions may be tried in
vain. -/
theorem failsOnly_run (hscene : Scene.Fits ⟨fs, s, v⟩)
    (hfiles : v.files = files.map (SourceFile.ofPath s source)) (c : Check) :
    FailsOnly (Expected fs s source files) (c.run ⟨fs, s, v⟩).outcome := by
  cases c with
  | components =>
    exact failsOnly_ofFault fun f hf => expected_of_filesIn hfiles (eq_error_of_bind_pure hf)
  | hooks => exact failsOnly_ofFault fun f hf => expected_of_filesIn hfiles (eq_error_of_bind_pure hf)
  | pages => exact failsOnly_pageSection hscene hfiles
  | duplicate => exact failsOnly_of_exists (Check.exists_duplicateSection hscene)
  | stylesheet => exact failsOnly_of_exists (Check.exists_stylesheetSection hscene)
  | assets =>
    intro e he
    rw [outcome_assets] at he
    rcases Check.assetSection_cases hscene with ⟨hdir, hdenied, hsec⟩ | ⟨-, sec, hsec⟩
    · rw [hsec] at he
      obtain rfl := Except.error.inj he
      exact Or.inl ⟨_, hdir, hdenied, rfl⟩
    · rw [hsec] at he
      cases he

theorem failsOnly_runChecks {P : Failure → Prop} {x : Scene}
    (h : ∀ c : Check, FailsOnly P (c.run x).outcome) (checks : List Check) :
    FailsOnly P (runChecks x checks).outcome := by
  induction checks with
  | nil => exact failsOnly_of_exists ⟨_, rfl⟩
  | cons c checks ih =>
    have hcheck : FailsOnly P (runCheck x c).outcome := by
      rw [outcome_runCheck]
      exact h c
    refine hcheck.bind fun sec _ => ih.bind fun secs _ => ?_
    exact failsOnly_of_exists ⟨_, rfl⟩

/-! ### Audits -/

/-- **What stops the audit of a source root** within the bounds. -/
theorem failsOnly_ofSource (hwf : fs.tree.WellFormed) (hcwd : IsReal fs.tree fs.cwd)
    (hdir : fs.isDirectory source = .ok true) (hskip : Walk.skipNames s.skipDirs = .ok skip)
    (hbounds : InBounds fs s skip source) (checks : List Check) :
    FailsOnly (Expected fs s source (Walk.ofRoot fs skip source).files)
      (ofSource fs source s checks).outcome := by
  unfold ofSource
  refine FailsOnly.bind (failsOnly_of_exists ⟨_, rfl⟩) fun _ _ =>
    FailsOnly.bind (failsOnly_make hwf hcwd hdir hskip hbounds) fun v hv => ?_
  obtain ⟨hroot, hfiles⟩ := files_of_make hskip hv
  have hscene : Scene.Fits ⟨fs, s, v⟩ := fun name hname => by
    rw [Scene.path, hroot]
    exact hbounds.names name hname
  refine FailsOnly.bind (failsOnly_runChecks (failsOnly_run hscene hfiles) checks) fun sections _ =>
    FailsOnly.bind (failsOnly_ofFault fun f hf => ?_) fun scanned _ =>
      failsOnly_of_exists ⟨_, rfl⟩
  obtain ⟨rfl, hx, hne⟩ := Extensions.select_eq_error.mp hf
  refine Or.inr ⟨rfl, Or.inl ⟨hx, fun hnil => hne ?_⟩⟩
  rw [hfiles, hnil]
  rfl

/-- Sequences of extensions are tried on all files. -/
theorem not_mismatched (hs : s.WellTyped) (source : Path) (files : List Path) :
    ¬ Mismatched s source files := by
  obtain ⟨suffixes, hsource⟩ := hs.sourceExtensions
  obtain ⟨suffixes', hpage⟩ := hs.pageExtensions
  rintro (⟨hx, -⟩ | ⟨hx, -⟩)
  · rw [hsource] at hx
    cases hx
  · rw [hpage] at hx
    cases hx

end Audit

/-! ### Where the project root is -/

namespace Tree

variable {t : Tree} {longest : Option Nat} {cwd : Location}

theorem trace_eq_failed {onLink : Resolved → Path → List String → Progress} {P : Fault → Prop}
    (hzero : P .zeroCharacter)
    (hlink : ∀ links here path f, onLink links here path = .failed f → P f) {links : Resolved}
    {here : Path} {path : List String} {f : Fault}
    (h : t.trace longest cwd onLink links here path = .failed f) : P f := by
  induction path generalizing links here with
  | nil => cases h
  | cons piece rest ih =>
    rw [trace] at h
    split at h
    · exact ih h
    · split at h
      · exact ih h
      · simp only at h
        split at h
        · split at h
          · exact Progress.failed.inj h ▸ hzero
          · exact ih h
        · split at h
          · exact ih h
          · split at h
            · exact ih h
            · cases h
            · split at h
              · exact ih h
              · cases h
              · next fault hfault => exact Progress.failed.inj h ▸ hlink _ _ _ _ hfault
        · exact ih h

/-- **A canonical form fails for two reasons**: a zero character, or links that stand too deep inside
each other. -/
theorem canonical_eq_error {p : Path} {f : Fault} (h : t.canonical longest cwd p = .error f) :
    f = .zeroCharacter ∨ f = .tooDeep := by
  have hall : ∀ depth links here path f, t.traceAtMost longest cwd depth links here path = .failed f →
      f = .zeroCharacter ∨ f = .tooDeep := by
    intro depth
    induction depth with
    | zero =>
      intro links here path f hf
      exact trace_eq_failed (P := fun f => f = .zeroCharacter ∨ f = .tooDeep) (Or.inl rfl)
        (fun _ _ _ _ h => Or.inr (Progress.failed.inj h).symm) hf
    | succ depth ih =>
      intro links here path f hf
      exact trace_eq_failed (P := fun f => f = .zeroCharacter ∨ f = .tooDeep) (Or.inl rfl) ih hf
  unfold canonical at h
  simp only at h
  split at h
  · cases h
  · cases h
  · next fault hfault => exact Except.error.inj h ▸ hall _ _ _ _ _ hfault

end Tree

/-- A path has no canonical form if links lead from it around in a loop, or stand too deep inside each
other, or if it holds the zero character. -/
theorem FileSystem.resolve_eq_error {fs : FileSystem} {p : Path} {f : Fault}
    (h : fs.resolve p = .error f) : f = .linkLoop ∨ f = .zeroCharacter ∨ f = .tooDeep := by
  unfold FileSystem.resolve at h
  cases hc : fs.tree.canonical fs.longestPath fs.cwd p with
  | error f' =>
    rw [hc] at h
    obtain rfl : f' = f := Except.error.inj h
    exact Or.inr (Tree.canonical_eq_error hc)
  | ok real =>
    rw [hc] at h
    simp only [bind, Except.bind] at h
    split at h
    · exact Or.inl (Except.error.inj h).symm
    · exact Or.inr (Or.inl (Except.error.inj h).symm)
    · cases h

namespace Audit

variable {fs : FileSystem} {s : Settings} {skip : List String} {root : Path}

/-- What an audit gives when its project root can be found: a problem if there is no source root,
and if there is one, a result, unless a directory is denied. -/
def Settled (fs : FileSystem) (source : Path) (outcome : Except Failure Audit) : Prop :=
  (fs.isDirectory source = .ok false ∧
    outcome = .error (.problem (.noSource source "source directory not found"))) ∨
  (fs.isDirectory source = .ok true ∧
    ((∃ a, outcome = .ok a) ∨ ∃ dir, fs.isDirectory dir = .ok true ∧ fs.isDenied dir = true ∧
      outcome = .error (Walk.unlistable dir .denied)))

/-- A settled audit was not stopped by a fault. -/
theorem Settled.ne_fault {source : Path} {outcome : Except Failure Audit}
    (h : Settled fs source outcome) (f : Fault) : outcome ≠ .error (.fault f) := by
  rcases h with ⟨-, rfl⟩ | ⟨-, ⟨a, rfl⟩ | ⟨dir, -, -, rfl⟩⟩
  · exact fun he => by cases he
  · exact fun he => by cases he
  · exact fun he => by cases he

theorem settled_of_resolve (hs : s.WellTyped) (hwf : fs.tree.WellFormed)
    (hcwd : IsReal fs.tree fs.cwd) (hskip : s.skipDirs = .texts skip) {real : Path}
    (hroot : fs.resolve root = .ok real) (hbounds : InBounds fs s skip (sourceRoot real s)) :
    Settled fs (sourceRoot real s) (ofSettings fs root s Check.all).outcome := by
  obtain ⟨b, hdir⟩ := FileSystem.exists_isDirectory hbounds.root
  cases b with
  | false => exact Or.inl ⟨hdir, outcome_ofSettings_of_not_isDirectory hroot hdir⟩
  | true =>
    have hskip' : Walk.skipNames s.skipDirs = .ok skip := by
      rw [hskip]
      exact Walk.skipNames_texts skip
    refine Or.inr ⟨hdir, ?_⟩
    rw [outcome_ofSettings hroot hdir]
    have hfails := failsOnly_ofSource hwf hcwd hdir hskip' hbounds Check.all
    cases houtcome : (ofSource fs (sourceRoot real s) s Check.all).outcome with
    | ok a => exact Or.inl ⟨a, rfl⟩
    | error e =>
      rcases hfails e houtcome with ⟨dir, hd, hdenied, rfl⟩ | ⟨-, hmismatch⟩
      · exact Or.inr ⟨dir, hd, hdenied, rfl⟩
      · exact absurd hmismatch (not_mismatched hs _ _)

/-- **An audit fails with problems only, unless its root cannot be found.**  Links may dangle and lead
in circles, and paths may be denied.  A root that leads somewhere can be found. -/
theorem failures_exact (hs : s.WellTyped) (hwf : fs.tree.WellFormed) (hcwd : IsReal fs.tree fs.cwd)
    (hskip : s.skipDirs = .texts skip)
    (hbounds : ∀ real, fs.resolve root = .ok real → InBounds fs s skip (sourceRoot real s)) :
    (∀ real, fs.resolve root = .ok real →
      Settled fs (sourceRoot real s) (ofSettings fs root s Check.all).outcome) ∧
    (∀ f, (ofSettings fs root s Check.all).outcome = .error (.fault f) ↔
      fs.resolve root = .error f) ∧
    (∀ f, fs.resolve root = .error f → f = .linkLoop ∨ f = .zeroCharacter ∨ f = .tooDeep) ∧
    (fs.ResolvesInFull root →
      ∀ loc, fs.locate root = .ok loc → fs.resolve root = .ok ⟨.root, loc⟩) := by
  have hsettled : ∀ real, fs.resolve root = .ok real →
      Settled fs (sourceRoot real s) (ofSettings fs root s Check.all).outcome :=
    fun real hroot => settled_of_resolve hs hwf hcwd hskip hroot (hbounds real hroot)
  refine ⟨hsettled, fun f => ⟨fun hf => ?_, fun hf => ?_⟩, fun f => FileSystem.resolve_eq_error,
    fun hlong loc hloc => FileSystem.resolve_of_locate hwf hcwd hlong hloc⟩
  · cases hroot : fs.resolve root with
    | ok real => exact absurd hf ((hsettled real hroot).ne_fault f)
    | error f' =>
      have hfault : (ofSettings fs root s Check.all).outcome = .error (.fault f') :=
        traced_bind_eq_error (ofFault_eq_error.mpr ⟨f', hroot, rfl⟩)
      rw [hf] at hfault
      rw [Failure.fault.inj (Except.error.inj hfault)]
  · exact traced_bind_eq_error (ofFault_eq_error.mpr ⟨f, hf, rfl⟩)

/-- What can be asked is not refused as too long. -/
theorem locate_ne_nameTooLong {p : Path} (h : (fs.isDirectory p).toOption.isSome) :
    fs.locate p ≠ .error .nameTooLong := by
  intro hlong
  rw [FileSystem.isDirectory_of_nameTooLong hlong] at h
  cases h

/-- The bounds do not stand in the way when all questions are answered. -/
theorem inBounds_of_isSome {source : Path} (hroot : (fs.isDirectory source).toOption.isSome)
    (hwalk : Walk.staysInBounds fs skip source = true)
    (hnames : ∀ name ∈ s.asked, (fs.isFile (source.joinText name)).toOption.isSome) :
    InBounds fs s skip source where
  root := locate_ne_nameTooLong hroot
  walk := Walk.inBounds_of_staysInBounds hwalk
  names := fits_of_isFile hnames

/-- A project that a link leads to, with links that dangle and lead in circles, and a directory that
is denied. -/
def tangled : FileSystem where
  tree := ⟨[.of ["p"] .directory, .of ["p", "src"] .directory, .of ["p", "src", "App.tsx"] (.file []),
    .of ["p", "src", "gone.ts"] (.link "nowhere"), .of ["p", "src", "round.ts"] (.link "round.ts"),
    .of ["p", "src", "secret"] .directory, .of ["p", "src", "up"] (.link ".."), .of ["q"] (.link "p")]⟩
  cwd := []
  denied := [⟨.root, ["p", "src", "secret"]⟩]

theorem settled_tangled :
    tangled.resolve ⟨.current, ["q"]⟩ = .ok ⟨.root, ["p"]⟩ ∧
      Settled tangled ⟨.root, ["p", "src"]⟩
        (ofSettings tangled ⟨.current, ["q"]⟩ .default Check.all).outcome := by
  have hroot : tangled.resolve ⟨.current, ["q"]⟩ = .ok ⟨.root, ["p"]⟩ :=
    eq_ok_of_toOption (by decide +kernel)
  have hsource : sourceRoot ⟨.root, ["p"]⟩ .default = ⟨.root, ["p", "src"]⟩ := by decide +kernel
  have hbounds : InBounds tangled .default ["node_modules"] ⟨.root, ["p", "src"]⟩ :=
    inBounds_of_isSome (by decide +kernel) (by decide +kernel) (by decide +kernel)
  obtain ⟨hsettled, -⟩ := @failures_exact tangled .default ["node_modules"] ⟨.current, ["q"]⟩
    Settings.wellTyped_default (by decide +kernel) .root rfl fun real hreal => by
      rw [← Except.ok.inj (hroot.symm.trans hreal), hsource]
      exact hbounds
  exact ⟨hroot, hsource ▸ hsettled _ hroot⟩

/-- A link that leads to itself. -/
def knot : FileSystem where
  tree := ⟨[.of ["p"] (.link "p")]⟩
  cwd := []

/-- **A root that leads around in a loop stops an audit by a fault.** -/
theorem not_settled_knot :
    ¬ ∀ (fs : FileSystem) (root : Path) (s : Settings), s.WellTyped → fs.tree.WellFormed →
      IsReal fs.tree fs.cwd →
      (∃ a, (ofSettings fs root s Check.all).outcome = .ok a) ∨
        ∃ p, (ofSettings fs root s Check.all).outcome = .error (.problem p) := by
  intro hall
  have hroot : knot.resolve ⟨.current, ["p"]⟩ = .error .linkLoop :=
    eq_error_of_reason? (by decide +kernel)
  have hfault : (ofSettings knot ⟨.current, ["p"]⟩ .default Check.all).outcome =
      .error (.fault .linkLoop) := traced_bind_eq_error (ofFault_eq_error.mpr ⟨_, hroot, rfl⟩)
  rcases hall knot ⟨.current, ["p"]⟩ .default Settings.wellTyped_default (by decide +kernel) .root with
    ⟨a, ha⟩ | ⟨p, hp⟩
  · rw [hfault] at ha
    cases ha
  · rw [hfault] at hp
    cases hp

end Audit

end Unimported
