import Unimported.Proofs.Audit.Sections
import Unimported.Proofs.Survey.Made
import Unimported.Proofs.Walk.Coverage

/-!
# What a run writes down

A run counts the same things in several places: the gathering counts the files that it reads, the
audit counts them again in the finished survey, and the journal has a record for each directory
that was listed, for each file that could not be read and for each check.  Here the *details* of a
run, which are the records that only a verbose run shows, are computed from what the run found, and
the counts are shown to agree.  Beside the details a run writes one stage and, when the entry file
cannot be read, warnings; these are not looked at.

## Main definitions

* `Traced.details` — the details among the records of a step.
* `Source.refusal?`, `Source.skipped?` — why a file cannot be read, and the record of this.
* `Audit.Accounted` — an audit and the details of its run tell the same.

## Main results

* `Usage.addAll_eq_ok` — what going through the files counts and writes down.
* `Check.details_run` — a check writes no details.
* `Audit.ofSettings_accounted` — **a run that returns is accounted for.**
-/

namespace Unimported

/-! ### Details -/

namespace Traced

variable {α β : Type}

/-- The records that only a verbose run shows. -/
def details (x : Traced α) : List Record := x.records.filter fun r => r.level = .debug

@[simp] theorem details_pure (a : α) : (pure a : Traced α).details = [] := rfl

@[simp] theorem details_ofFault (x : Except Fault α) : (ofFault x).details = [] := rfl

/-- A step that succeeds is followed by the next one. -/
theorem details_bind_of_ok {x : Traced α} {a : α} (h : x.outcome = .ok a) (f : α → Traced β) :
    (x >>= f).details = x.details ++ (f a).details := by
  unfold details
  rw [records_bind, h, List.filter_append]

/-- Steps without details have none together, whether they succeed or not. -/
theorem details_bind_eq_nil {x : Traced α} {f : α → Traced β} (hx : x.details = [])
    (hf : ∀ a, (f a).details = []) : (x >>= f).details = [] := by
  unfold details at hx hf ⊢
  rw [records_bind, List.filter_append, hx]
  cases x.outcome with
  | error e => rfl
  | ok a => exact hf a

end Traced

/-! ### Files that cannot be read -/

/-- How a file that cannot be accessed is reported. -/
theorem Problem.text_file (p : Path) (reason : String) : (Problem.file p reason).text =
    "Cannot access file: " ++ p.text ++ " (filepath=" ++ p.text ++ ", reason=" ++ reason ++ ")" := by
  have hnamed : (Problem.file p reason).text = "Cannot access file: " ++ p.text ++
      (" (" ++ ", ".intercalate ["filepath=" ++ p.text, "reason=" ++ reason] ++ ")") := rfl
  rw [hnamed, ← String.toList_inj]
  simp [String.intercalate_cons_cons]

namespace Source

variable {fs : FileSystem} {p : Path}

/-- Why a file cannot be read, if it cannot. -/
def refusal? (fs : FileSystem) (p : Path) : Option AccessError :=
  match fs.read p with
  | .ok _ => none
  | .error e => some e

/-- The record that a file leaves behind when it is read for its imports: there is one if the file
cannot be read. -/
def skipped? (fs : FileSystem) (p : Path) : Option Record :=
  (refusal? fs p).map fun e => ⟨.debug, .imports,
    "Skipping unreadable file: " ++ (Problem.file p ("Cannot read file: " ++ e.text p)).text⟩

/-- The record with its wording written out. -/
theorem skipped?_eq (fs : FileSystem) (p : Path) : skipped? fs p =
    (refusal? fs p).map fun e => ⟨.debug, .imports,
      "Skipping unreadable file: Cannot access file: " ++ p.text ++ " (filepath=" ++ p.text ++
        ", reason=Cannot read file: " ++ e.text p ++ ")"⟩ := by
  have hfront : "Skipping unreadable file: " ++ "Cannot access file: " =
      "Skipping unreadable file: Cannot access file: " := by decide
  have hreason : ", reason=" ++ "Cannot read file: " = ", reason=Cannot read file: " := by decide
  unfold skipped?
  simp only [Problem.text_file, ← hfront, ← hreason, String.append_assoc]

/-- Reading a file for its imports writes its record, if it has one. -/
theorem details_imports {specs : List String} (h : (imports fs p).outcome = .ok specs) :
    (imports fs p).details = (skipped? fs p).toList := by
  unfold imports read at h ⊢
  unfold skipped? refusal?
  cases hr : fs.read p with
  | ok bytes => rfl
  | error e =>
    rw [hr] at h
    -- a path that no file can have would have stopped the run
    cases e with
    | zeroCharacter => cases h
    | _ => rfl

end Source

/-! ### The files of a walk -/

namespace Usage

variable {fs : FileSystem} {r : Resolver} {x : Extensions} {t t' : Tally}

/-- **What one file counts and writes down.** -/
theorem add_eq_ok {p : Path} (h : (t.add fs r (isSource x) p).outcome = .ok t') :
    t'.count = t.count + (if IsRead x p then 1 else 0) ∧
      (t.add fs r (isSource x) p).details =
        if IsRead x p then (Source.skipped? fs p).toList else [] := by
  unfold Tally.add at h ⊢
  obtain ⟨b, hb, h⟩ := Outcome.traced_bind_eq_ok.mp h
  have hread := isSource_eq_ok.mp (Outcome.ofFault_eq_ok.mp hb)
  rw [Traced.details_bind_of_ok hb, Traced.details_ofFault, List.nil_append]
  cases b with
  | false =>
    have hnot : ¬ IsRead x p := by simpa using hread
    obtain rfl := Outcome.traced_pure_eq_ok.mp h
    simp [hnot]
  | true =>
    have hyes : IsRead x p := by simpa using hread
    simp only [if_true] at h ⊢
    obtain ⟨es, hes, h⟩ := Outcome.traced_bind_eq_ok.mp h
    obtain rfl := Outcome.traced_pure_eq_ok.mp h
    rw [Traced.details_bind_of_ok hes]
    unfold edges at hes ⊢
    obtain ⟨specs, hspecs, -⟩ := Outcome.traced_bind_eq_ok.mp hes
    rw [Traced.details_bind_of_ok hspecs, Source.details_imports hspecs]
    simp [hyes]

/-- **What going through the files counts and writes down.** -/
theorem addAll_eq_ok {files : List Path} (h : (t.addAll fs r (isSource x) files).outcome = .ok t') :
    t'.count = t.count + (files.filter fun p => IsRead x p).length ∧
      (t.addAll fs r (isSource x) files).details =
        (files.filter fun p => IsRead x p).filterMap (Source.skipped? fs) := by
  induction files generalizing t with
  | nil =>
    obtain rfl := Except.ok.inj h
    exact ⟨rfl, rfl⟩
  | cons p files ih =>
    rw [Tally.addAll] at h ⊢
    obtain ⟨t₁, h₁, h⟩ := Outcome.traced_bind_eq_ok.mp h
    obtain ⟨hcount, hdetails⟩ := add_eq_ok h₁
    obtain ⟨hcounts, hrest⟩ := ih h
    rw [Traced.details_bind_of_ok h₁, hdetails, hrest, hcounts, hcount]
    by_cases hread : IsRead x p
    · cases hs : Source.skipped? fs p <;> simp [hread, hs] <;> omega
    · simp [hread]

/-- What a gathering writes down: the files that it skipped, and then how much it gave. -/
theorem details_gather {files : List Path} {used : StringSet}
    (h : (gather fs r (isSource x) files).outcome = .ok used) :
    (gather fs r (isSource x) files).details =
      (files.filter fun p => IsRead x p).filterMap (Source.skipped? fs) ++
        [⟨.debug, .usage, gatheredText (files.filter fun p => IsRead x p).length used⟩] := by
  unfold gather at h ⊢
  obtain ⟨t, ht, h⟩ := Outcome.traced_bind_eq_ok.mp h
  obtain ⟨hcount, hdetails⟩ := addAll_eq_ok ht
  rw [outcome_close, Except.ok.injEq] at h
  have hzero : t.count = (files.filter fun p => IsRead x p).length := by
    rw [hcount]
    exact Nat.zero_add _
  rw [Traced.details_bind_of_ok ht, hdetails, ← h, ← hzero]
  rfl

end Usage

namespace Walk

variable (fs : FileSystem) (skip : Value) (root : Path)

/-- A walk writes down the directories that it lists. -/
theorem details_traverse :
    (traverse fs skip root).details = (trail fs skip root).listings.map listingRecord := by
  refine List.filter_eq_self.mpr fun r hr => ?_
  obtain ⟨l, -, rfl⟩ := List.mem_map.mp hr
  rfl

/-- A trail is that of a walk, unless the walk could not begin. -/
theorem trail_cases :
    (trail fs skip root).stages = [] ∨ ∃ names, skipNames skip = .ok names ∧
      trail fs skip root = ofRoot fs names root := by
  unfold trail
  split
  · exact Or.inl rfl
  · next names hn => exact Or.inr ⟨names, hn, rfl⟩

/-- No file is found twice. -/
theorem nodup_files : (trail fs skip root).files.Nodup := by
  rcases trail_cases fs skip root with h | ⟨names, -, h⟩
  · rw [Trail.files, h]
    exact .nil
  · rw [h]
    exact (pairwise_files_ofRoot fs names root).imp Path.Precedes.ne

/-- No directory is listed under two paths with one canonical form. -/
theorem nodup_listed : ((trail fs skip root).listings.map fun l => fs.resolve l.path).Nodup := by
  rcases trail_cases fs skip root with h | ⟨names, -, h⟩
  · rw [Trail.listings, h]
    exact .nil
  · rw [h]
    exact (nodup_listings fs names _ [] _).1

/-- What is told of a directory is what listing it gives. -/
theorem list_of_mem_trail : ∀ l ∈ (trail fs skip root).listings, fs.list l.path = .ok l := by
  rcases trail_cases fs skip root with h | ⟨names, -, h⟩
  · rw [Trail.listings, h]
    simp
  · rw [h]
    exact fun l hl => list_of_mem_listings hl

/-- No directory is listed twice, if all paths that the walk comes to resolve in full. -/
theorem nodup_trail (hwf : fs.tree.WellFormed) (hcwd : Tree.IsReal fs.tree fs.cwd)
    {names : List String} (hnames : skipNames skip = .ok names)
    (hfull : ∀ dir, ComesTo fs names root dir → fs.ResolvesInFull dir) :
    ((trail fs skip root).listings.map Listing.real).Nodup := by
  have htrail : trail fs skip root = ofRoot fs names root := by
    unfold trail
    rw [hnames]
  rw [htrail]
  exact nodup_real hwf hcwd hfull

variable {fs skip root}

/-- A walk that ends yields the files of its trail. -/
theorem files_trail {files : List Path} (h : (traverse fs skip root).outcome = .ok files) :
    (trail fs skip root).files = files := by
  unfold traverse Trail.traced at h
  split at h
  · exact Except.ok.inj h
  · cases h

end Walk

/-- What a survey writes down. -/
theorem Survey.details_make {fs : FileSystem} {root : Path} {s : Settings} {v : Survey}
    (h : (make fs root s).outcome = .ok v) {files : List Path}
    (hfiles : (Walk.traverse fs s.skipDirs root).outcome = .ok files) :
    (make fs root s).details =
      (Walk.trail fs s.skipDirs root).listings.map Walk.listingRecord ++
        (files.filter fun p => Usage.IsRead s.sourceExtensions p).filterMap (Source.skipped? fs) ++
        [⟨.debug, .usage, Usage.gatheredText
          (files.filter fun p => Usage.IsRead s.sourceExtensions p).length v.used⟩] := by
  unfold make at h ⊢
  obtain ⟨paths, hpaths, h⟩ := Outcome.traced_bind_eq_ok.mp h
  obtain ⟨used, hused, h⟩ := Outcome.traced_bind_eq_ok.mp h
  obtain rfl := Outcome.traced_pure_eq_ok.mp h
  obtain rfl := Except.ok.inj (hfiles.symm.trans hpaths)
  rw [Traced.details_bind_of_ok hfiles, Walk.details_traverse, Traced.details_bind_of_ok hused,
    Usage.details_gather hused]
  simp

/-! ### Checks -/

theorem Scene.details_entryText (x : Scene) : x.entryText.details = [] := by
  refine Traced.details_bind_eq_nil rfl fun b => ?_
  cases b with
  | false => rfl
  | true =>
    simp only [Bool.not_true]
    cases Source.read x.fs (x.path x.settings.entryFile) with
    | ok text => rfl
    | error e =>
      cases e with
      | problem problem => exact Traced.details_bind_eq_nil rfl fun _ => rfl
      | fault fault => rfl

namespace Check

/-- What is decided by the text of the entry file has no details of its own. -/
theorem details_of_entryText {α : Type} {x : Scene} {f : Option String → Traced α}
    (h : ∀ text, (f text).details = []) : (x.entryText >>= f).details = [] :=
  Traced.details_bind_eq_nil x.details_entryText h

/-- **A check writes no details**; how much it gave is written by the run. -/
theorem details_run (x : Scene) (c : Check) : (c.run x).details = [] := by
  cases c with
  | components | hooks | assets => rfl
  | pages =>
    refine Traced.details_bind_eq_nil rfl fun files => ?_
    split
    · rfl
    · exact details_of_entryText fun text => by cases text <;> rfl
  | duplicate =>
    refine Traced.details_bind_eq_nil rfl fun b => ?_
    split
    · rfl
    · refine Traced.details_bind_eq_nil rfl fun b => ?_
      split
      · rfl
      · refine details_of_entryText fun text => ?_
        cases text with
        | none => rfl
        | some text =>
          simp only
          split
          · rfl
          · split <;> rfl
  | stylesheet =>
    refine Traced.details_bind_eq_nil rfl fun b => ?_
    split
    · rfl
    · refine details_of_entryText fun text => ?_
      cases text with
      | none => rfl
      | some text =>
        simp only
        split <;> rfl

end Check

namespace Audit

variable {fs : FileSystem} {root source : Path} {s : Settings} {checks : List Check} {a : Audit}

open Outcome

/-- The record of a check with the section that it gave. -/
def sectionRecord (c : Check) (sec : Section) : Record := ⟨.debug, .audit, sectionText c sec⟩

theorem details_runCheck {x : Scene} {c : Check} {sec : Section}
    (h : (runCheck x c).outcome = .ok sec) : (runCheck x c).details = [sectionRecord c sec] := by
  have hrun := runCheck_eq_ok h
  unfold runCheck
  rw [Traced.details_bind_of_ok hrun, Check.details_run]
  rfl

/-- A run of checks writes down how much each of them gave. -/
theorem details_runChecks {x : Scene} {checks : List Check} {sections : List Section}
    (h : (runChecks x checks).outcome = .ok sections) :
    (runChecks x checks).details = List.zipWith sectionRecord checks sections := by
  induction checks generalizing sections with
  | nil => rfl
  | cons c checks ih =>
    unfold runChecks at h ⊢
    obtain ⟨sec, hsec, h⟩ := traced_bind_eq_ok.mp h
    obtain ⟨secs, hsecs, h⟩ := traced_bind_eq_ok.mp h
    obtain rfl := traced_pure_eq_ok.mp h
    rw [Traced.details_bind_of_ok hsec, details_runCheck hsec, Traced.details_bind_of_ok hsecs,
      ih hsecs]
    simp

/-- The details of an audit are those of its survey and of its checks. -/
theorem details_ofSettings {real : Path} {v : Survey} {sections : List Section}
    (hreal : fs.resolve root = .ok real) (hdir : fs.isDirectory (sourceRoot real s) = .ok true)
    (hv : (Survey.make fs (sourceRoot real s) s).outcome = .ok v)
    (hsections : (runChecks ⟨fs, s, v⟩ checks).outcome = .ok sections) :
    (ofSettings fs root s checks).details =
      (Survey.make fs (sourceRoot real s) s).details ++
        List.zipWith sectionRecord checks sections := by
  have hroot : (ofSettings fs root s checks).details =
      (ofSource fs (sourceRoot real s) s checks).details := by
    unfold ofSettings ofRoot
    rw [Traced.details_bind_of_ok (ofFault_eq_ok.mpr hreal),
      Traced.details_bind_of_ok (ofFault_eq_ok.mpr hdir)]
    rfl
  -- the source files are counted last, and this is written nowhere
  have hlast : (Traced.ofFault (s.sourceExtensions.select SourceFile.name v.files) >>=
      fun scanned =>
        (pure ⟨sections, v.files.length, scanned.length, v.used.size⟩ : Traced Audit)).details = [] :=
    Traced.details_bind_eq_nil rfl fun _ => rfl
  rw [hroot]
  unfold ofSource
  rw [Traced.details_bind_of_ok rfl, Traced.details_bind_of_ok hv,
    Traced.details_bind_of_ok hsections, details_runChecks hsections, hlast, List.append_nil]
  rfl

/-! ### Counts -/

/-- The files that the audit counts are those that the gathering reads. -/
theorem length_select {suffixes : List String} (hx : s.sourceExtensions = .listed suffixes)
    {paths : List Path} {n : Nat} (h : (s.sourceExtensions.select SourceFile.name
      (paths.map (SourceFile.ofPath s source))).map List.length = .ok n) :
    n = (paths.filter fun p => Usage.IsRead s.sourceExtensions p).length := by
  have hread : ((fun f : SourceFile => suffixes.any fun x => Text.closes x f.name) ∘
      SourceFile.ofPath s source) = fun p => decide (Usage.IsRead s.sourceExtensions p) := by
    funext p
    rw [Bool.eq_iff_iff, decide_eq_true_eq, hx]
    simp [Usage.IsRead, Extensions.suffixes, Text.closes_iff, SourceFile.name, SourceFile.ofPath]
  rw [hx] at h
  simp only [Extensions.select, Extensions.ending?, List.filter_map, hread, Except.map,
    List.length_map, Except.ok.injEq] at h
  exact h.symm

/-- The candidates of the sections are counted one section after the other. -/
theorem foldr_candidates (sections : List Section) :
    (sections.map fun sec => sec.candidates.length).foldr (· + ·) 0 =
      (sections.flatMap Section.candidates).length := by
  induction sections with
  | nil => rfl
  | cons sec sections ih =>
    rw [List.map_cons, List.foldr_cons, ih, List.flatMap_cons, List.length_append]

/-- An audit and the details of its run tell the same: what the walk found, which of the files
could not be read, how much was gathered and how much each check gave. -/
structure Accounted (fs : FileSystem) (s : Settings) (checks : List Check) (source : Path)
    (files : List Path) (details : List Record) (a : Audit) : Prop where
  /-- Each file is counted once. -/
  nodup_files : files.Nodup
  filesWalked_eq : a.filesWalked = files.length
  filesScanned_eq : a.filesScanned =
    (files.filter fun p => Usage.IsRead s.sourceExtensions p).length
  /-- Each directory was listed, and no two under paths with one canonical form. -/
  list_eq_ok : ∀ l ∈ (Walk.trail fs s.skipDirs source).listings, fs.list l.path = .ok l
  nodup_listed : ((Walk.trail fs s.skipDirs source).listings.map fun l => fs.resolve l.path).Nodup
  /-- So none was listed twice, if the bound on the length of paths makes no difference to where
  they are. -/
  nodup_real : fs.tree.WellFormed → Tree.IsReal fs.tree fs.cwd →
    ∀ names, Walk.skipNames s.skipDirs = .ok names →
      (∀ dir, Walk.ComesTo fs names source dir → fs.ResolvesInFull dir) →
        ((Walk.trail fs s.skipDirs source).listings.map Listing.real).Nodup
  /-- Every check gave a section, and what these count of candidates adds up. -/
  length_sections : a.sections.length = checks.length
  sum_candidates :
    (a.sections.map fun sec => sec.candidates.length).foldr (· + ·) 0 = a.candidates.length
  /-- These are all the details: the directories, the files that could not be read, what was
  gathered, and how much each check gave. -/
  details_eq : details =
    (Walk.trail fs s.skipDirs source).listings.map (fun l => ⟨.debug, .walk,
      "Listing " ++ l.path.text ++ " (" ++ toString l.names.length ++ " entries)"⟩) ++
    (files.filter fun p => Usage.IsRead s.sourceExtensions p).filterMap (fun p =>
      (Source.refusal? fs p).map fun e => ⟨.debug, .imports,
        "Skipping unreadable file: Cannot access file: " ++ p.text ++ " (filepath=" ++ p.text ++
          ", reason=Cannot read file: " ++ e.text p ++ ")"⟩) ++
    [⟨.debug, .usage, "Scanned " ++ toString a.filesScanned ++ " source files, " ++
      toString a.pathsInUse ++ " logical paths in use"⟩] ++
    List.zipWith (fun c sec => ⟨.debug, .audit, c.name ++ ": " ++
      toString sec.candidates.length ++ " candidates, " ++ toString sec.remarks.length ++
      " observations"⟩) checks a.sections

/-- **A run that returns is accounted for**, whatever links and denied files the tree has. -/
theorem ofSettings_accounted {suffixes : List String} (hx : s.sourceExtensions = .listed suffixes)
    (h : (ofSettings fs root s checks).outcome = .ok a) :
    ∃ real files, fs.resolve root = .ok real ∧
      (Walk.traverse fs s.skipDirs (sourceRoot real s)).outcome = .ok files ∧
      Accounted fs s checks (sourceRoot real s) files (ofSettings fs root s checks).details a := by
  obtain ⟨real, hreal, hdir, hsource⟩ := exists_ofSource h
  obtain ⟨v, hv, hsections, hwalked, hused, hscanned⟩ := exists_survey hsource
  obtain ⟨files, hfiles, -, -, hmap⟩ := Survey.make_eq_ok hv
  rw [hmap] at hwalked hscanned
  have hcount := length_select hx hscanned
  obtain ⟨hsame, -⟩ := sections_eq_map hsections
  refine ⟨real, files, hreal, hfiles, ?_⟩
  exact {
    nodup_files := Walk.files_trail hfiles ▸ Walk.nodup_files fs s.skipDirs _
    filesWalked_eq := by rw [hwalked, List.length_map]
    filesScanned_eq := hcount
    list_eq_ok := Walk.list_of_mem_trail fs s.skipDirs _
    nodup_listed := Walk.nodup_listed fs s.skipDirs _
    nodup_real := fun hwf hcwd _ => Walk.nodup_trail fs s.skipDirs _ hwf hcwd
    length_sections := by rw [hsame, List.length_map]
    sum_candidates := foldr_candidates a.sections
    details_eq := by
      rw [details_ofSettings hreal hdir hv hsections, Survey.details_make hv hfiles, hcount, hused,
        funext (Source.skipped?_eq fs)]
      rfl }

/-- The small project where its application file may not be opened. -/
def closedSample : FileSystem := Survey.sample.deny [Survey.sampleRoot.child "App.tsx"]

/-- The run on the small project tells of the file that was skipped, and of both hooks. -/
theorem ofSettings_accounted_sample :
    ∃ real files a, (ofSettings closedSample ⟨.current, []⟩ .default Check.all).outcome = .ok a ∧
      Accounted closedSample .default Check.all (sourceRoot real .default) files
        (ofSettings closedSample ⟨.current, []⟩ .default Check.all).details a ∧
      a.filesWalked = 3 ∧ a.filesScanned = 3 ∧ a.pathsInUse = 0 ∧ a.candidates.length = 2 ∧
      (ofSettings closedSample ⟨.current, []⟩ .default Check.all).details.map Record.message =
        ["Listing /p/src (2 entries)", "Listing /p/src/hooks (2 entries)",
          "Skipping unreadable file: Cannot access file: /p/src/App.tsx (filepath=/p/src/App.tsx, " ++
            "reason=Cannot read file: [Errno 13] Permission denied: '/p/src/App.tsx')",
          "Scanned 3 source files, 0 logical paths in use",
          "ui_component: 0 candidates, 0 observations", "hook: 2 candidates, 2 observations",
          "page: 0 candidates, 0 observations", "duplicate: 0 candidates, 0 observations",
          "stylesheet: 0 candidates, 0 observations", "assets: 0 candidates, 0 observations"] := by
  have hrun : (ofSettings closedSample ⟨.current, []⟩ .default Check.all).outcome.toOption.map
      (fun a => (a.filesWalked, a.filesScanned, a.pathsInUse, a.candidates.length)) =
        some (3, 3, 0, 2) := by decide +kernel
  obtain ⟨a, ha, hcounts⟩ := exists_ok_of_map hrun
  obtain ⟨real, files, -, -, hacc⟩ := ofSettings_accounted (s := .default) rfl ha
  simp only [Prod.mk.injEq] at hcounts
  obtain ⟨hwalked, hscanned, hused, hcandidates⟩ := hcounts
  exact ⟨real, files, a, ha, hacc, hwalked, hscanned, hused, hcandidates, by decide +kernel⟩

end Audit

end Unimported
