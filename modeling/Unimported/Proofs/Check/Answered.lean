import Unimported.Check.Run
import Unimported.Proofs.FileSystem.Located
import Unimported.Proofs.Outcome
import Unimported.Proofs.Walk.Handled

/-!
# Checks that give a section

What a check asks of a machine is whether something stands under a name that the settings give, and
the only answer to this that is neither yes nor no is that the name is too long.  A check whose
questions are answered gives its section, unless it has to list a directory that is denied.

## Main definitions

* `Settings.asked` — the names that the checks ask about.
* `Scene.Fits` — none of them is refused as too long.

## Main results

* `Scene.exists_entryText` — whether there is an entry file, and what it says, can be told.
* `Check.exists_run` — **a check whose questions are answered gives its section.**
* `Check.assetSection_cases` — what the check that lists a directory can give.
-/

namespace Unimported

open Outcome

/-- The names below the source root that the checks ask about. -/
def Settings.asked (s : Settings) : List String :=
  [s.entryFile, s.hooksDir ++ "/" ++ s.duplicateName, s.uiDir ++ "/" ++ s.duplicateName,
    s.stylesheet, s.assetsDir]

namespace Scene

variable {x : Scene} {name : String}

/-- No name that the checks ask about is refused as too long. -/
def Fits (x : Scene) : Prop :=
  ∀ name ∈ x.settings.asked, x.fs.locate (x.path name) ≠ .error .nameTooLong

theorem exists_hasFile (hx : x.Fits) (h : name ∈ x.settings.asked) :
    ∃ b, (x.hasFile name).outcome = .ok b := by
  obtain ⟨b, hb⟩ := FileSystem.exists_isFile (hx name h)
  exact ⟨b, ofFault_eq_ok.mpr hb⟩

/-- Where a file stands, reading it fails for no other reason than that it is denied. -/
theorem read_of_hasFile (h : (x.hasFile name).outcome = .ok true) :
    ∃ bytes, x.fs.read (x.path name) =
      if x.fs.isDenied (x.path name) then .error .denied else .ok bytes := by
  obtain ⟨real, bytes, hloc, hnode⟩ := FileSystem.isFile_eq_true.mp (ofFault_eq_ok.mp h)
  refine ⟨bytes, ?_⟩
  unfold FileSystem.read
  rw [hloc]
  simp only [hnode]

theorem exists_entryText (hx : x.Fits) : ∃ text, x.entryText.outcome = .ok text := by
  have hentry : x.settings.entryFile ∈ x.settings.asked := List.mem_cons_self
  obtain ⟨b, hb⟩ := exists_hasFile hx hentry
  unfold entryText
  rw [Traced.outcome_bind, hb]
  cases b with
  | false => exact ⟨none, rfl⟩
  | true =>
    obtain ⟨bytes, hread⟩ := read_of_hasFile hb
    simp only [Except.bind, Bool.not_true, Bool.false_eq_true, if_false, Source.read, hread]
    by_cases hdenied : x.fs.isDenied (x.path x.settings.entryFile) = true
    · rw [if_pos hdenied]
      exact ⟨none, rfl⟩
    · rw [if_neg hdenied]
      exact ⟨some (Source.textOf bytes), rfl⟩

end Scene

namespace Check

variable {x : Scene} {suffixes : List String}

theorem mem_all (c : Check) : c ∈ all := by cases c <;> decide

/-- The files of a category can be told by a list of extensions. -/
theorem exists_filesIn (v : Survey) (c : Category) (suffixes : List String) :
    ∃ files, v.filesIn c (.listed suffixes) = .ok files := ⟨_, rfl⟩

theorem exists_componentSection (hs : x.settings.sourceExtensions = .listed suffixes) :
    ∃ sec, componentSection x = .ok sec := ⟨_, by unfold componentSection; rw [hs]; rfl⟩

theorem exists_hookSection (hs : x.settings.sourceExtensions = .listed suffixes) :
    ∃ sec, hookSection x = .ok sec := ⟨_, by unfold hookSection; rw [hs]; rfl⟩

theorem exists_pageSection (hx : x.Fits) (hp : x.settings.pageExtensions = .listed suffixes) :
    ∃ sec, (pageSection x).outcome = .ok sec := by
  obtain ⟨files, hfiles⟩ := exists_filesIn x.survey .page suffixes
  obtain ⟨text, htext⟩ := x.exists_entryText hx
  unfold pageSection
  simp only [hp]
  rw [Traced.outcome_bind, ofFault_eq_ok.mpr hfiles]
  show ∃ sec, Traced.outcome (if files.isEmpty then _ else _) = .ok sec
  split
  · exact ⟨_, rfl⟩
  · rw [Traced.outcome_bind, htext]
    cases text with
    | none => exact ⟨_, rfl⟩
    | some text => exact ⟨_, rfl⟩

theorem exists_duplicateSection (hx : x.Fits) : ∃ sec, (duplicateSection x).outcome = .ok sec := by
  have hhooks : x.settings.hooksDir ++ "/" ++ x.settings.duplicateName ∈ x.settings.asked := by
    simp [Settings.asked]
  have hui : x.settings.uiDir ++ "/" ++ x.settings.duplicateName ∈ x.settings.asked := by
    simp [Settings.asked]
  obtain ⟨b, hb⟩ := x.exists_hasFile hx hhooks
  obtain ⟨b', hb'⟩ := x.exists_hasFile hx hui
  obtain ⟨text, htext⟩ := x.exists_entryText hx
  unfold duplicateSection
  rw [Traced.outcome_bind, hb]
  cases b with
  | false => exact ⟨_, rfl⟩
  | true =>
    show ∃ sec, Traced.outcome (x.hasFile _ >>= _) = .ok sec
    rw [Traced.outcome_bind, hb']
    cases b' with
    | false => exact ⟨_, rfl⟩
    | true =>
      show ∃ sec, Traced.outcome (x.entryText >>= _) = .ok sec
      rw [Traced.outcome_bind, htext]
      cases text with
      | none => exact ⟨_, rfl⟩
      | some text =>
        simp only [Except.bind]
        split
        · exact ⟨_, rfl⟩
        · split
          · exact ⟨_, rfl⟩
          · exact ⟨_, rfl⟩

theorem exists_stylesheetSection (hx : x.Fits) :
    ∃ sec, (stylesheetSection x).outcome = .ok sec := by
  have hsheet : x.settings.stylesheet ∈ x.settings.asked := by simp [Settings.asked]
  obtain ⟨b, hb⟩ := x.exists_hasFile hx hsheet
  obtain ⟨text, htext⟩ := x.exists_entryText hx
  unfold stylesheetSection
  rw [Traced.outcome_bind, hb]
  cases b with
  | false => exact ⟨_, rfl⟩
  | true =>
    show ∃ sec, Traced.outcome (x.entryText >>= _) = .ok sec
    rw [Traced.outcome_bind, htext]
    cases text with
    | none => exact ⟨_, rfl⟩
    | some text =>
      simp only [Except.bind]
      split
      · exact ⟨_, rfl⟩
      · exact ⟨_, rfl⟩

theorem assetSection_absent (hd : x.fs.isDirectory (x.path x.settings.assetsDir) = .ok false) :
    assetSection x = .ok ⟨assets.name, "Checking Assets...", [], []⟩ := by
  unfold assetSection
  simp only [hd]
  rfl

theorem assetSection_unlistable {e : AccessError}
    (hd : x.fs.isDirectory (x.path x.settings.assetsDir) = .ok true)
    (hl : x.fs.list (x.path x.settings.assetsDir) = .error e) :
    assetSection x = .error (Walk.unlistable (x.path x.settings.assetsDir) e) := by
  unfold assetSection
  simp only [hd, hl]
  rfl

theorem assetSection_listed {l : Listing}
    (hd : x.fs.isDirectory (x.path x.settings.assetsDir) = .ok true)
    (hl : x.fs.list (x.path x.settings.assetsDir) = .ok l) :
    assetSection x = .ok ⟨assets.name, "Checking Assets...", [
      ⟨x.settings.assetsDir, .info, "Found " ++ toString l.names.length ++ " asset files"⟩,
      ⟨x.settings.assetsDir, .info, "Asset usage requires manual checking in components"⟩], []⟩ := by
  unfold assetSection
  simp only [hd, hl]
  rfl

/-- **The check that lists a directory** fails if the directory is denied, and gives its section
otherwise. -/
theorem assetSection_cases (hx : x.Fits) :
    (x.fs.isDirectory (x.path x.settings.assetsDir) = .ok true ∧
      x.fs.isDenied (x.path x.settings.assetsDir) = true ∧
      assetSection x = .error (Walk.unlistable (x.path x.settings.assetsDir) .denied)) ∨
    ((x.fs.isDirectory (x.path x.settings.assetsDir) = .ok true →
      x.fs.isDenied (x.path x.settings.assetsDir) = false) ∧
      ∃ sec, assetSection x = .ok sec) := by
  have hshort := hx x.settings.assetsDir (by simp [Settings.asked])
  obtain ⟨b, hd⟩ := FileSystem.exists_isDirectory hshort
  cases b with
  | false =>
    refine Or.inr ⟨fun h => ?_, _, assetSection_absent hd⟩
    rw [hd] at h
    cases h
  | true =>
    cases hdenied : x.fs.isDenied (x.path x.settings.assetsDir) with
    | true => exact Or.inl ⟨hd, rfl, assetSection_unlistable hd (if_pos hdenied)⟩
    | false =>
      obtain ⟨l, hl⟩ := Walk.exists_list_eq_ok hd hdenied
      exact Or.inr ⟨fun _ => rfl, _, assetSection_listed hd hl⟩

/-- **A check whose questions are answered gives its section**, apart from the one that lists a
directory. -/
theorem exists_run (hx : x.Fits) (hsource : ∃ suffixes, x.settings.sourceExtensions = .listed suffixes)
    (hpage : ∃ suffixes, x.settings.pageExtensions = .listed suffixes) {c : Check}
    (hc : c ≠ assets) : ∃ sec, (c.run x).outcome = .ok sec := by
  obtain ⟨suffixes, hs⟩ := hsource
  obtain ⟨pageSuffixes, hp⟩ := hpage
  cases c with
  | components =>
    obtain ⟨sec, hsec⟩ := exists_componentSection hs
    exact ⟨sec, ofFault_eq_ok.mpr hsec⟩
  | hooks =>
    obtain ⟨sec, hsec⟩ := exists_hookSection hs
    exact ⟨sec, ofFault_eq_ok.mpr hsec⟩
  | pages => exact exists_pageSection hx hp
  | duplicate => exact exists_duplicateSection hx
  | stylesheet => exact exists_stylesheetSection hx
  | assets => exact absurd rfl hc

end Check

end Unimported
