import Unimported.Proofs.Check.Answered

/-!
# Checks that see the same

A check looks at a project through few questions: which names of which category there are, whether a
file exists, what the entry file says, and whether a target mentions a file.  Where these have the
same answers, the check gives the same section, whatever else is different about the machines and
the surveys.

## Main definitions

* `SourceFile.face` — what a check sees of a file.
* `Scene.Alike` — two scenes in which the questions have the same answers.

## Main results

* `Survey.filesIn_congr` — surveys that show the same files have the same files of each category.
* `Check.run_congr` — **in scenes that are alike the checks give the same sections.**
-/

namespace Unimported

open Outcome

/-- What a check sees of a file: its name and its category. -/
def SourceFile.face (f : SourceFile) : String × Category := (f.name, f.category)

/-- The questions that the checks ask, apart from listing a directory, have the same answers. -/
structure Scene.Alike (x y : Scene) : Prop where
  settings : x.settings = y.settings
  files : x.survey.files.map SourceFile.face = y.survey.files.map SourceFile.face
  hasFile : ∀ name ∈ y.settings.asked, (x.hasFile name).outcome = (y.hasFile name).outcome
  entryText : x.entryText.outcome = y.entryText.outcome
  hooks : ∀ f ∈ y.survey.ofCategory .hook,
    Usage.containsAny x.survey.used (Check.hookNeedles y.settings f) =
      Usage.containsAny y.survey.used (Check.hookNeedles y.settings f)
  components : ∀ f ∈ y.survey.ofCategory .component,
    Usage.containsAny x.survey.used (Check.componentNeedles y.settings f) =
      Usage.containsAny y.survey.used (Check.componentNeedles y.settings f)

/-! ### Files with the same faces -/

section Faces

variable {α β κ : Type} {key : α → κ} {as bs : List α}

/-- What is told by the keys is the same for lists with the same keys. -/
theorem map_congr_of_keys (h : as.map key = bs.map key) {f g : α → β}
    (hfg : ∀ a, ∀ b ∈ bs, key a = key b → f a = g b) : as.map f = bs.map g := by
  induction as generalizing bs with
  | nil =>
    obtain rfl := List.map_eq_nil_iff.mp h.symm
    rfl
  | cons a as ih =>
    cases bs with
    | nil => cases h
    | cons b bs =>
      obtain ⟨hkey, hrest⟩ := List.cons.inj h
      have hhead := hfg a b List.mem_cons_self hkey
      have htail := ih hrest fun a' b' hb' => hfg a' b' (List.mem_cons_of_mem b hb')
      rw [List.map_cons, List.map_cons, hhead, htail]

/-- So is what is chosen by the keys. -/
theorem filter_congr_of_keys (h : as.map key = bs.map key) {p q : α → Bool}
    (hpq : ∀ a, ∀ b ∈ bs, key a = key b → p a = q b) :
    (as.filter p).map key = (bs.filter q).map key := by
  induction as generalizing bs with
  | nil =>
    obtain rfl := List.map_eq_nil_iff.mp h.symm
    rfl
  | cons a as ih =>
    cases bs with
    | nil => cases h
    | cons b bs =>
      obtain ⟨hkey, hrest⟩ := List.cons.inj h
      have hhead := hpq a b List.mem_cons_self hkey
      have htail := ih hrest fun a' b' hb' => hpq a' b' (List.mem_cons_of_mem b hb')
      rw [List.filter_cons, List.filter_cons, hhead]
      split
      · rw [List.map_cons, List.map_cons, hkey, htail]
      · exact htail

end Faces

theorem SourceFile.name_of_face {f f' : SourceFile} (h : f.face = f'.face) : f.name = f'.name :=
  congrArg Prod.fst h

theorem SourceFile.stem_of_face {f f' : SourceFile} (h : f.face = f'.face) : f.stem = f'.stem :=
  congrArg (fun name => (Path.cutSuffix name).1) (name_of_face h)

/-- **Surveys that show the same files have the same files of each category**, or cannot tell them
for the same reason. -/
theorem Survey.filesIn_congr {v w : Survey}
    (h : v.files.map SourceFile.face = w.files.map SourceFile.face) (c : Category)
    (e : Extensions) :
    (∃ fault, v.filesIn c e = .error fault ∧ w.filesIn c e = .error fault) ∨
    ∃ fs gs, v.filesIn c e = .ok fs ∧ w.filesIn c e = .ok gs ∧
      fs.map SourceFile.face = gs.map SourceFile.face ∧ ∀ g ∈ gs, g ∈ w.ofCategory c := by
  have hcategory : (v.ofCategory c).map SourceFile.face = (w.ofCategory c).map SourceFile.face :=
    filter_congr_of_keys h fun f g _ hface => by
      rw [show f.category = g.category from congrArg Prod.snd hface]
  unfold filesIn Extensions.select
  cases e.ending? with
  | some test =>
    refine Or.inr ⟨_, _, rfl, rfl, ?_, fun g hg => (List.mem_filter.mp hg).1⟩
    exact filter_congr_of_keys hcategory fun f g _ hface => by
      rw [SourceFile.name_of_face hface]
  | none =>
    have hempty : (v.ofCategory c).isEmpty = (w.ofCategory c).isEmpty := by
      have hmap := congrArg List.isEmpty hcategory
      rwa [List.isEmpty_map, List.isEmpty_map] at hmap
    rw [hempty]
    cases (w.ofCategory c).isEmpty with
    | true => exact Or.inr ⟨[], [], rfl, rfl, rfl, fun g hg => (List.not_mem_nil hg).elim⟩
    | false => exact Or.inl ⟨_, rfl, rfl⟩

namespace Check

variable {x y : Scene}

theorem hookSection_congr (h : x.Alike y) : hookSection x = hookSection y := by
  unfold hookSection
  rw [h.settings]
  rcases Survey.filesIn_congr h.files .hook y.settings.sourceExtensions with
    ⟨fault, hx, hy⟩ | ⟨fs, gs, hx, hy, hfaces, hcategory⟩
  · rw [hx, hy]
    rfl
  · -- the verdict on a file is told by its name
    have hverdict : ∀ f, ∀ g ∈ gs, f.face = g.face →
        Usage.containsAny x.survey.used (hookNeedles y.settings f) =
          Usage.containsAny y.survey.used (hookNeedles y.settings g) := by
      intro f g hg hface
      rw [← h.hooks g (hcategory g hg), hookNeedles, hookNeedles, SourceFile.stem_of_face hface]
    have hremarks := map_congr_of_keys hfaces fun f g hg hface => show
        (if Usage.containsAny x.survey.used (hookNeedles y.settings f) then usedRemark f
          else unusedRemark f) =
        if Usage.containsAny y.survey.used (hookNeedles y.settings g) then usedRemark g
          else unusedRemark g by
      rw [hverdict f g hg hface, usedRemark, usedRemark, unusedRemark, unusedRemark,
        SourceFile.name_of_face hface]
    have hunused : (unusedFiles x.survey.used (hookNeedles y.settings) fs).map SourceFile.face =
        (unusedFiles y.survey.used (hookNeedles y.settings) gs).map SourceFile.face :=
      filter_congr_of_keys hfaces fun f g hg hface => by rw [hverdict f g hg hface]
    have hcandidates := map_congr_of_keys hunused fun f g _ hface => show
        (⟨y.settings.hooksDir ++ "/" ++ f.name, "Hook", notImported⟩ : Candidate) =
          ⟨y.settings.hooksDir ++ "/" ++ g.name, "Hook", notImported⟩ by
      rw [SourceFile.name_of_face hface]
    rw [hx, hy]
    simp only [bind, Except.bind, hremarks, hcandidates]

theorem componentSection_congr (h : x.Alike y) : componentSection x = componentSection y := by
  unfold componentSection
  rw [h.settings]
  rcases Survey.filesIn_congr h.files .component y.settings.sourceExtensions with
    ⟨fault, hx, hy⟩ | ⟨fs, gs, hx, hy, hfaces, hcategory⟩
  · rw [hx, hy]
    rfl
  · have hverdict : ∀ f, ∀ g ∈ gs, f.face = g.face →
        Usage.containsAny x.survey.used (componentNeedles y.settings f) =
          Usage.containsAny y.survey.used (componentNeedles y.settings g) := by
      intro f g hg hface
      rw [← h.components g (hcategory g hg), componentNeedles, componentNeedles,
        SourceFile.stem_of_face hface]
    have hunused :
        (unusedFiles x.survey.used (componentNeedles y.settings) fs).map SourceFile.face =
          (unusedFiles y.survey.used (componentNeedles y.settings) gs).map SourceFile.face :=
      filter_congr_of_keys hfaces fun f g hg hface => by rw [hverdict f g hg hface]
    have hremarks := map_congr_of_keys hunused fun f g _ hface => show
        unusedRemark f = unusedRemark g by
      rw [unusedRemark, unusedRemark, SourceFile.name_of_face hface]
    have hcandidates := map_congr_of_keys hunused fun f g _ hface => show
        (⟨y.settings.uiDir ++ "/" ++ f.name, "UI Component", notImported⟩ : Candidate) =
          ⟨y.settings.uiDir ++ "/" ++ g.name, "UI Component", notImported⟩ by
      rw [SourceFile.name_of_face hface]
    rw [hx, hy]
    simp only [bind, Except.bind, hremarks, hcandidates]

theorem pageSection_congr (h : x.Alike y) : (pageSection x).outcome = (pageSection y).outcome := by
  unfold pageSection
  rw [h.settings]
  rcases Survey.filesIn_congr h.files .page y.settings.pageExtensions with
    ⟨fault, hx, hy⟩ | ⟨fs, gs, hx, hy, hfaces, -⟩
  · rw [hx, hy]
    rfl
  · have hempty : fs.isEmpty = gs.isEmpty := by
      have hmap := congrArg List.isEmpty hfaces
      rwa [List.isEmpty_map, List.isEmpty_map] at hmap
    rw [hx, hy]
    show Traced.outcome (if fs.isEmpty then _ else _) = Traced.outcome (if gs.isEmpty then _ else _)
    rw [hempty]
    split
    · rfl
    · refine traced_bind_congr h.entryText fun text _ => ?_
      cases text with
      | none => rfl
      | some text =>
        have hremarks := map_congr_of_keys hfaces fun f g _ hface => show
            (if Text.occursIn f.stem text then (⟨f.name, .used, "is used in routes"⟩ : Remark)
              else ⟨f.name, .unused, "NOT used in " ++ y.settings.entryFile ++ " routes"⟩) =
            if Text.occursIn g.stem text then ⟨g.name, .used, "is used in routes"⟩
              else ⟨g.name, .unused, "NOT used in " ++ y.settings.entryFile ++ " routes"⟩ by
          rw [SourceFile.stem_of_face hface, SourceFile.name_of_face hface]
        have hunused : (fs.filter fun f => !Text.occursIn f.stem text).map SourceFile.face =
            (gs.filter fun f => !Text.occursIn f.stem text).map SourceFile.face :=
          filter_congr_of_keys hfaces fun f g _ hface => by rw [SourceFile.stem_of_face hface]
        have hcandidates := map_congr_of_keys hunused fun f g _ hface => show
            (⟨y.settings.pagesDir ++ "/" ++ f.name, "Page",
              "Not used in " ++ y.settings.entryFile ++ " routes"⟩ : Candidate) =
            ⟨y.settings.pagesDir ++ "/" ++ g.name, "Page",
              "Not used in " ++ y.settings.entryFile ++ " routes"⟩ by
          rw [SourceFile.name_of_face hface]
        simp only [hremarks, hcandidates]

theorem duplicateSection_congr (h : x.Alike y) :
    (duplicateSection x).outcome = (duplicateSection y).outcome := by
  unfold duplicateSection
  rw [h.settings]
  refine traced_bind_congr (h.hasFile _ (by simp [Settings.asked])) fun inHooks _ => ?_
  split
  · rfl
  · refine traced_bind_congr (h.hasFile _ (by simp [Settings.asked])) fun inUi _ => ?_
    split
    · rfl
    · exact traced_bind_congr h.entryText fun text _ => rfl

theorem stylesheetSection_congr (h : x.Alike y) :
    (stylesheetSection x).outcome = (stylesheetSection y).outcome := by
  unfold stylesheetSection
  rw [h.settings]
  refine traced_bind_congr (h.hasFile _ (by simp [Settings.asked])) fun present _ => ?_
  split
  · rfl
  · exact traced_bind_congr h.entryText fun text _ => rfl

/-- **In scenes that are alike the checks give the same sections**, apart from the one that lists a
directory. -/
theorem run_congr (h : x.Alike y) {c : Check} (hc : c ≠ assets) :
    (c.run x).outcome = (c.run y).outcome := by
  cases c with
  | components => exact congrArg (fun s => (Traced.ofFault s).outcome) (componentSection_congr h)
  | hooks => exact congrArg (fun s => (Traced.ofFault s).outcome) (hookSection_congr h)
  | pages => exact pageSection_congr h
  | duplicate => exact duplicateSection_congr h
  | stylesheet => exact stylesheetSection_congr h
  | assets => exact absurd rfl hc

end Check

end Unimported
