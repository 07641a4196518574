import Unimported.Audit.Request
import Unimported.Proofs.Audit.Depth
import Unimported.Proofs.FileSystem.Spellings
import Unimported.Proofs.Report.Escaped
import Unimported.Proofs.Settings.Verbosity

/-!
# The command and the audit agree

The command loads settings under the root as it was written, and then audits the project; an audit
that is asked for directly finds the root first and loads settings there.  Both give the same.  What
the audit gives is told by the status, the output and nothing else: a report, a problem, or a fault
that stops the command as well.  The flags only set the level of the journal.  What is printed may
show emoji, as far as the terminal knows any.

Three things may keep the command from an audit that would return.  The settings are written to the
journal before the audit, whatever its level is, so they must have a written form.  The settings
file must be found under the root as it was written, which may lead through more links than are
followed, or be longer than any path.  And the walk of the command may not get as deep as that of an
audit that is asked for directly, so neither may come to a directory that is too deep for one of
them.

## Main definitions

* `CommandLine.InBounds` — the settings file is found under both paths.
* `CommandLine.ending` — how the command ends for what an audit gives.

## Main results

* `Audit.ofSettings_withVerbosity` — an audit does not depend on the verbosity.
* `Audit.outcome_ofProject` — an audit whose settings are loaded first.
* `CommandLine.printedLine_errorLine`, `CommandLine.printedReport_noneKnown` — what is printed of a
  problem, and of a report, on a terminal without emoji.
* `CommandLine.exists_fault_of_not_shown` — settings without a written form stop the command.
* `CommandLine.run_eq_ending` — **the command ends as its audit does, whatever the flags.**
-/

namespace Unimported

open Outcome
open FileSystem (canonicalPath)
open Tree (IsReal Leads)

namespace Audit

variable {fs : FileSystem} {root real : Path} {s : Settings} {checks : List Check}

/-! ### Audits -/

theorem run_withVerbosity (v : Verbosity) (survey : Survey) (c : Check) :
    c.run ⟨fs, s.withVerbosity v, survey⟩ = c.run ⟨fs, s, survey⟩ := by
  cases c <;> rfl

/-- **An audit does not depend on the verbosity** of its settings. -/
theorem ofSettings_withVerbosity (fs : FileSystem) (root : Path) (s : Settings) (v : Verbosity)
    (checks : List Check) :
    ofSettings fs root (s.withVerbosity v) checks = ofSettings fs root s checks := by
  have hsource : ∀ source, ofSource fs source (s.withVerbosity v) checks =
      ofSource fs source s checks := by
    intro source
    unfold ofSource
    simp only [runChecks_eq (run_withVerbosity v _)]
    rfl
  unfold ofSettings ofRoot
  simp only [hsource]
  rfl

/-- An audit whose settings are loaded first, from where the root really is. -/
theorem outcome_ofProject (hroot : fs.resolve root = .ok real)
    (hload : Settings.load fs (some real) none [] = .ok s) :
    (ofProject fs root [] checks).outcome = (ofSettings fs root s checks).outcome := by
  unfold ofProject ofSettings
  rw [Traced.outcome_bind, Traced.outcome_bind, ofFault_eq_ok.mpr hroot]
  show (Traced.ofExcept (Settings.request fs (some (some real)) none []) >>= _).outcome = _
  rw [Settings.request_nil, Traced.outcome_bind]
  show Except.bind (Settings.load fs (some real) none []) _ = _
  rw [hload]
  rfl

end Audit

namespace CommandLine

open Report.Emoji (Known noneKnown)

variable {fs : FileSystem} {s : Settings} {v : String} {flags : List Flag} {args : List String}
  {emoji : Known}

/-- The settings file of a project is found under the root as it was written and under the canonical
one: neither path is too long, and the first does not go through too many links. -/
structure InBounds (fs : FileSystem) (root : Path) : Prop where
  canonical : fs.tree.canonical fs.longestPath fs.cwd root = fs.tree.canonical none fs.cwd root
  short : ∀ real, fs.locate root = .ok real →
    fs.locate ((canonicalPath real).child Settings.fileName) ≠ .error .nameTooLong
  links : ∀ real, fs.locate root = .ok real →
    fs.locate (root.child Settings.fileName) = .error .tooManyLinks →
      ∀ found, ¬ Leads fs.tree real [Settings.fileName] found

/-! ### Settings -/

/-- The settings that are loaded under a root are those that are loaded where it really is. -/
theorem load_canonical {root : Path} {real : Location} (hwf : fs.tree.WellFormed)
    (hcwd : IsReal fs.tree fs.cwd) (hdenied : fs.denied = []) (hreal : fs.locate root = .ok real)
    (hbounds : InBounds fs root) (h : Settings.load fs (some root) none [] = .ok s) :
    Settings.load fs (some (canonicalPath real)) none [] = .ok s := by
  unfold Settings.load at h ⊢
  obtain ⟨project, hproject, h⟩ := bind_eq_ok.mp h
  have hcanonical := Settings.ofProject_canonical hwf hdenied
    (FileSystem.isReal_of_locate hwf hcwd hreal) hreal (hbounds.short real hreal)
    (hbounds.links real hreal) hproject
  exact bind_eq_ok.mpr ⟨project, hcanonical, h⟩

/-! ### Runs -/

/-- How the command ends for what an audit gives, and the level of the journal then. -/
def ending (emoji : Known) (level : Level) :
    Except Failure Audit → Except Fault (Nat × String × Level)
  | .ok a => .ok (0, printedReport emoji a, level)
  | .error (.problem p) => .ok (1, printedLine emoji (errorLine (.given p.text)), level)
  | .error (.fault f) => .error f

theorem replace_noneKnown : Report.Emoji.replace noneKnown = id :=
  funext Report.Emoji.replace_noneKnown

/-- What is printed of a report on a terminal without emoji. -/
theorem printedReport_noneKnown (a : Audit) :
    printedReport noneKnown a = Report.text Report.terminalWidth a.sections := by
  unfold printedReport
  rw [replace_noneKnown]
  rfl

/-- What is printed of a problem whose text holds no backslash, on a terminal without emoji. -/
theorem printedLine_errorLine {text : String} (h : '\\' ∉ text.toList) :
    printedLine noneKnown (errorLine (.given text)) =
      String.ofList (Report.printed Report.terminalWidth ("Error: " ++ text).toList) := by
  have hmarked : Report.Line.WellMarked (errorLine (.given text)) :=
    .style (by decide) (.fixed (by decide) (by decide) (.style (by decide) (.fixed (by decide)
      (by decide) (.given h (fun _ hp => by cases hp) .nil))))
  have hplain : Report.Line.plain (errorLine (.given text)) = ("Error: " ++ text).toList := by
    simp [errorLine, Report.Line.plain, Report.Piece.plain]
  have hrender := hmarked.render_markup
  unfold printedLine Report.Line.printedBy
  rw [replace_noneKnown, ← hplain, ← hrender]
  rfl

/-- What the command looks at, of an outcome. -/
def Outcome.seen (o : Outcome) : Nat × String × Level := (o.status, o.output, o.logger.level)

/-- A run with settings that were loaded and have a written form. -/
theorem sweep_eq_ending {o : Options} (hload : Settings.load fs (some o.rootPath) none [] = .ok s)
    (hshown : ∃ text, s.shown = .ok text) :
    (sweep fs o emoji).map Outcome.seen = ending emoji (o.asked?.getD s.verbosity).level
      (Audit.ofSettings fs o.rootPath s Check.all).outcome := by
  have hsettings : o.settings fs = .ok (s.flagged o) := Settings.load_overrides hload o
  obtain ⟨text, htext⟩ : ∃ text, (s.flagged o).shown = .ok text :=
    Settings.exists_shown_withVerbosity hshown _
  have haudit : (audit fs o.rootPath (s.flagged o)).outcome =
      (Audit.ofSettings fs o.rootPath s Check.all).outcome := by
    unfold audit
    rw [Traced.outcome_bind, ofFault_eq_ok.mpr htext]
    show (Audit.ofSettings fs o.rootPath (s.flagged o) Check.all).outcome = _
    rw [Settings.flagged, Audit.ofSettings_withVerbosity]
  unfold sweep
  simp only [hsettings, haudit]
  cases (Audit.ofSettings fs o.rootPath s Check.all).outcome with
  | ok a => rfl
  | error e =>
    cases e with
    | problem p => rfl
    | fault f => rfl

/-- A run with settings that were loaded and have no written form. -/
theorem sweep_of_not_shown {o : Options}
    (hload : Settings.load fs (some o.rootPath) none [] = .ok s)
    (hshown : ¬ ∃ text, s.shown = .ok text) : ∃ f, sweep fs o emoji = .error f := by
  have hsettings : o.settings fs = .ok (s.flagged o) := Settings.load_overrides hload o
  cases hflagged : (s.flagged o).shown with
  | ok text =>
    -- with the verbosity that was loaded, the settings could be shown as well
    exact absurd (Settings.exists_shown_withVerbosity ⟨text, hflagged⟩ s.verbosity) hshown
  | error f =>
    have haudit : (audit fs o.rootPath (s.flagged o)).outcome = .error (.fault f) :=
      traced_bind_eq_error (ofFault_eq_error.mpr ⟨f, hflagged, rfl⟩)
    refine ⟨f, ?_⟩
    unfold sweep
    simp only [hsettings, haudit]

/-- A command line that asks for an audit, and for one verbosity at most, is run as one. -/
theorem run_eq_sweep (hread : read args = .ok ⟨v, flags, []⟩)
    (hdir : fs.isDirectory (.ofString v) = .ok true) (hhelp : .help ∉ flags)
    (hversion : .version ∉ flags) (hone : ¬ (.verbose ∈ flags ∧ .quiet ∈ flags)) :
    run fs args emoji = sweep fs ⟨v, flags, []⟩ emoji := by
  have hhelp' : Options.has ⟨v, flags, []⟩ .help = false := by
    simpa [Options.has] using hhelp
  have hversion' : Options.has ⟨v, flags, []⟩ .version = false := by
    simpa [Options.has] using hversion
  have hone' : (Options.has ⟨v, flags, []⟩ .verbose && Options.has ⟨v, flags, []⟩ .quiet) = false := by
    rw [Bool.eq_false_iff]
    intro hboth
    obtain ⟨hverbose, hquiet⟩ := Bool.and_eq_true_iff.mp hboth
    exact hone ⟨List.contains_iff_mem.mp hverbose, List.contains_iff_mem.mp hquiet⟩
  unfold run
  rw [hread]
  show runOptions fs ⟨v, flags, []⟩ emoji = _
  unfold runOptions
  simp only [hhelp', FileSystem.leadsToFile_of_isDirectory hdir, hversion', hone', bind, Except.bind,
    List.isEmpty_nil, Bool.not_true, Bool.or_self, Bool.false_eq_true, if_false]

/-- **Settings without a written form stop the command**, whatever the flags and whatever an audit
gives. -/
theorem exists_fault_of_not_shown (hdir : fs.isDirectory (.ofString v) = .ok true)
    (hload : Settings.load fs (some (.ofString v)) none [] = .ok s)
    (hshown : ¬ ∃ text, s.shown = .ok text) (hread : read args = .ok ⟨v, flags, []⟩)
    (hhelp : .help ∉ flags) (hversion : .version ∉ flags)
    (hone : ¬ (.verbose ∈ flags ∧ .quiet ∈ flags)) : ∃ f, run fs args emoji = .error f := by
  rw [run_eq_sweep hread hdir hhelp hversion hone]
  exact sweep_of_not_shown (o := ⟨v, flags, []⟩) hload hshown

/-- Any root can be asked for, without a flag and with one. -/
theorem read_root (v : String) :
    read ["--root", v] = .ok ⟨v, [], []⟩ ∧ read ["--root", v, "--verbose"] = .ok ⟨v, [.verbose], []⟩ ∧
      read ["--root", v, "--quiet"] = .ok ⟨v, [.quiet], []⟩ := by
  have hroot : Argument.ofString "--root" = .ok (.rootNext [] "--root") :=
    eq_ok_of_toOption (by decide +kernel)
  have hverbose : Argument.ofString "--verbose" = .ok (.flags [.verbose]) :=
    eq_ok_of_toOption (by decide +kernel)
  have hquiet : Argument.ofString "--quiet" = .ok (.flags [.quiet]) :=
    eq_ok_of_toOption (by decide +kernel)
  unfold read
  simp only [readFrom, hroot, hverbose, hquiet]
  exact ⟨rfl, rfl, rfl⟩

/-- The level that the flags ask for, or else that of a verbosity. -/
def levelOf (flags : List Flag) (v : Verbosity) : Level :=
  if .quiet ∈ flags then .error else if .verbose ∈ flags then .debug else v.level

theorem level_asked? (v : String) (flags : List Flag) (verbosity : Verbosity) :
    ((Options.asked? ⟨v, flags, []⟩).getD verbosity).level = levelOf flags verbosity := by
  unfold Options.asked? Options.has levelOf
  by_cases hquiet : Flag.quiet ∈ flags
  · simp [hquiet]
    rfl
  · by_cases hverbose : Flag.verbose ∈ flags
    · simp [hquiet, hverbose]
      rfl
    · simp [hquiet, hverbose]

/-- **The command ends as its audit does, whatever the flags.**  The status is 0 just when the audit
returns, and then its report is printed; a problem is printed, with the status 1; a fault stops the
command.  The flags, or else the settings, tell the level of the journal, and nothing more.  An audit
that is asked for directly may go to another depth, if the walk keeps within both bounds. -/
theorem run_eq_ending (emoji : Known) (hwf : fs.tree.WellFormed) (hcwd : IsReal fs.tree fs.cwd)
    (hdenied : fs.denied = []) (hdir : fs.isDirectory (.ofString v) = .ok true)
    (hbounds : InBounds fs (.ofString v))
    (hload : Settings.load fs (some (.ofString v)) none [] = .ok s) {depth : Nat}
    (hdepth : Audit.KeepsWithin fs (.ofString v) s (min fs.deepest depth))
    (hshown : ∃ text, s.shown = .ok text) (hread : read args = .ok ⟨v, flags, []⟩)
    (hhelp : .help ∉ flags) (hversion : .version ∉ flags)
    (hone : ¬ (.verbose ∈ flags ∧ .quiet ∈ flags)) :
    (run fs args emoji).map Outcome.seen = ending emoji (levelOf flags s.verbosity)
      (Audit.request (fs.goingTo depth) (.ofString v) none none []).outcome ∧
    ((∃ o, run fs args emoji = .ok o ∧ o.status = 0) ↔
      ∃ a, (Audit.request (fs.goingTo depth) (.ofString v) none none []).outcome = .ok a) := by
  obtain ⟨real, hreal, -⟩ := FileSystem.isDirectory_eq_true.mp hdir
  have hroot : fs.resolve (.ofString v) = .ok (canonicalPath real) :=
    FileSystem.resolve_of_locate hwf hcwd hbounds.canonical hreal
  have haudit : (Audit.request (fs.goingTo depth) (.ofString v) none none []).outcome =
      (Audit.ofSettings fs (.ofString v) s Check.all).outcome := by
    have hroot' : (fs.goingTo depth).resolve (.ofString v) = .ok (canonicalPath real) := hroot
    have hload' := load_canonical hwf hcwd hdenied hreal hbounds hload
    rw [← Settings.load_goingTo] at hload'
    exact (Audit.outcome_ofProject hroot' hload').trans (Audit.ofSettings_goingTo hdepth)
  have hrun : (run fs args emoji).map Outcome.seen = ending emoji (levelOf flags s.verbosity)
      (Audit.request (fs.goingTo depth) (.ofString v) none none []).outcome := by
    rw [run_eq_sweep hread hdir hhelp hversion hone,
      sweep_eq_ending (o := ⟨v, flags, []⟩) hload hshown, level_asked?, haudit]
    rfl
  refine ⟨hrun, ?_, ?_⟩
  · rintro ⟨o, ho, hstatus⟩
    rw [ho] at hrun
    cases houtcome : (Audit.request (fs.goingTo depth) (.ofString v) none none []).outcome with
    | ok a => exact ⟨a, rfl⟩
    | error e =>
      rw [houtcome] at hrun
      cases e with
      | problem p =>
        have hone : o.status = 1 := congrArg Prod.fst (Except.ok.inj hrun)
        omega
      | fault f => cases hrun
  · rintro ⟨a, ha⟩
    rw [ha] at hrun
    cases ho : run fs args emoji with
    | error f =>
      rw [ho] at hrun
      cases hrun
    | ok o =>
      rw [ho] at hrun
      exact ⟨o, rfl, congrArg Prod.fst (Except.ok.inj hrun)⟩

/-- A project that wants the whole journal, and a link to it. -/
def linked : FileSystem where
  tree := ⟨[.of ["p"] .directory, .of ["p", "src"] .directory, .of ["p", "src", "App.tsx"] (.file []),
    .of ["p", "ui-sweep.toml"] (.file (Text.Utf8.encode "verbosity = 'verbose'\n".toList)),
    .of ["q"] (.link "p")]⟩
  cwd := []

theorem run_linked :
    ∃ s, Settings.load linked (some (.ofString "./q/")) none [] = .ok s ∧ s.verbosity = .verbose ∧
      (run linked ["--root", "./q/", "--quiet"] noneKnown).map Outcome.seen = ending noneKnown .error
        (Audit.request (linked.goingTo 995) (.ofString "./q/") none none []).outcome ∧
      ((∃ o, run linked ["--root", "./q/", "--quiet"] noneKnown = .ok o ∧ o.status = 0) ↔
        ∃ a, (Audit.request (linked.goingTo 995) (.ofString "./q/") none none []).outcome =
          .ok a) := by
  have hroot : Path.ofString "./q/" = ⟨.current, ["q"]⟩ := by decide +kernel
  obtain ⟨s, hload, hs⟩ : ∃ s, Settings.load linked (some (.ofString "./q/")) none [] = .ok s ∧
      (s.shown.toOption.isSome, s.verbosity, (Walk.skipNames s.skipDirs).toOption, s.sourceDir) =
        (true, .verbose, some ["node_modules"], "src") :=
    exists_ok_of_map (by decide +kernel)
  obtain ⟨hshown, hrest⟩ := Prod.mk.inj hs
  obtain ⟨hverbose, hrest⟩ := Prod.mk.inj hrest
  obtain ⟨hskip, hsourceDir⟩ := Prod.mk.inj hrest
  have hlocate : linked.locate (.ofString "./q/") = .ok ["p"] := eq_ok_of_toOption (by decide +kernel)
  have hfile : linked.locate ((Path.ofString "./q/").child Settings.fileName) =
      .ok ["p", "ui-sweep.toml"] := eq_ok_of_toOption (by decide +kernel)
  have hcanonical : linked.locate ((canonicalPath ["p"]).child Settings.fileName) =
      .ok ["p", "ui-sweep.toml"] := eq_ok_of_toOption (by decide +kernel)
  have hbounded : linked.tree.canonical linked.longestPath linked.cwd (.ofString "./q/") =
      .ok ⟨.root, ["p"]⟩ := eq_ok_of_toOption (by decide +kernel)
  have hunbounded : linked.tree.canonical none linked.cwd (.ofString "./q/") = .ok ⟨.root, ["p"]⟩ :=
    eq_ok_of_toOption (by decide +kernel)
  have hbounds : InBounds linked (.ofString "./q/") := {
    canonical := hbounded.trans hunbounded.symm
    short := by
      intro real hreal
      obtain rfl := Except.ok.inj (hlocate.symm.trans hreal)
      rw [hcanonical]
      exact fun h => by cases h
    links := by
      intro real _ hmany
      rw [hfile] at hmany
      cases hmany }
  have hdepth : Audit.KeepsWithin linked (.ofString "./q/") s (min linked.deepest 995) := by
    have hresolve : linked.resolve (.ofString "./q/") = .ok ⟨.root, ["p"]⟩ :=
      eq_ok_of_toOption (by decide +kernel)
    have hsource : Path.joinText ⟨.root, ["p"]⟩ "src" = ⟨.root, ["p", "src"]⟩ := by decide +kernel
    have hwalk : Walk.InBounds linked ["node_modules"] ⟨.root, ["p", "src"]⟩ :=
      Walk.inBounds_of_staysInBounds (by decide +kernel)
    intro real skip hreal hnames
    rw [← Except.ok.inj ((eq_ok_of_toOption hskip).symm.trans hnames),
      ← Except.ok.inj (hresolve.symm.trans hreal), Audit.sourceRoot, hsourceDir, hsource]
    exact hwalk.shallow
  have hread : read ["--root", "./q/", "--quiet"] = .ok ⟨"./q/", [.quiet], []⟩ := (read_root _).2.2
  have hrun := run_eq_ending noneKnown (by decide +kernel) .root rfl
    (eq_ok_of_toOption (by decide +kernel)) hbounds hload hdepth (exists_ok_of_isSome hshown)
    hread (by decide) (by decide) (by decide)
  exact ⟨s, hload, hverbose, hrun⟩

/-- A project with a link to itself, and a link for a settings file. -/
def around : FileSystem where
  tree := ⟨[.of ["app"] .directory, .of ["app", "App.tsx"] (.file []),
    .of ["conf.toml"] (.file (Text.Utf8.encode "source_dir = 'app'\n".toList)), .of ["s"] (.link "."),
    .of ["ui-sweep.toml"] (.link "conf.toml")]⟩
  cwd := []

/-- The project, through as many links as are followed. -/
def longWay : String := "/".intercalate (List.replicate Tree.mostLinks "s")

/-- **Beyond the bound on links, the command and the audit part**: the command misses the settings
file, which the audit finds where the root really is. -/
theorem not_agree_longWay :
    ¬ ∀ (fs : FileSystem) (v : String) (s : Settings) (args : List String), fs.tree.WellFormed →
      IsReal fs.tree fs.cwd → fs.denied = [] → fs.isDirectory (.ofString v) = .ok true →
      Settings.load fs (some (.ofString v)) none [] = .ok s → read args = .ok ⟨v, [], []⟩ →
      ((∃ o, run fs args = .ok o ∧ o.status = 0) ↔
        ∃ a, (Audit.request fs (.ofString v) none none []).outcome = .ok a) := by
  intro hall
  obtain ⟨s, hload⟩ : ∃ s, Settings.load around (some (.ofString longWay)) none [] = .ok s :=
    exists_ok_of_isSome (by decide +kernel)
  obtain ⟨a, ha⟩ : ∃ a, (Audit.request around (.ofString longWay) none none []).outcome = .ok a :=
    exists_ok_of_isSome (by decide +kernel)
  have hstatus : (run around ["--root", longWay]).toOption.map Outcome.status = some 1 := by
    decide +kernel
  obtain ⟨o, ho, hzero⟩ := (hall around longWay s ["--root", longWay] (by decide +kernel) .root rfl
    (eq_ok_of_toOption (by decide +kernel)) hload (read_root longWay).1).mpr ⟨a, ha⟩
  rw [ho] at hstatus
  have hone : o.status = 1 := Option.some.inj hstatus
  omega

end CommandLine

end Unimported
