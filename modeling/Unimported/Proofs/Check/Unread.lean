import Unimported.Proofs.Check.Alike

/-!
# Checks without the text of the entry file

The checks against the entry file give their verdicts on its text.  Without the text they flag
nothing; and whether there is a text, and what it says, is no reason for a check to fail.  The
other checks do not look at it.

## Main definitions

* `Check.JudgesByEntry` — a check against the entry file.
* `Scene.SameButEntry` — two scenes that are told apart by the text of the entry file only.

## Main results

* `Check.candidates_of_unread` — **without the text of the entry file a check flags nothing.**
* `Check.sameFailure_run_of_sameButEntry` — **what the text says is no reason to fail.**
-/

namespace Unimported

open Outcome

/-- A check against the entry file. -/
def Check.JudgesByEntry (c : Check) : Prop := c ∈ [Check.pages, .duplicate, .stylesheet]

instance (c : Check) : Decidable c.JudgesByEntry :=
  inferInstanceAs (Decidable (c ∈ [Check.pages, .duplicate, .stylesheet]))

/-- Two scenes with the same settings, the same survey and the same files to ask for.  Their entry
files may say different things, or one of them nothing. -/
structure Scene.SameButEntry (x y : Scene) : Prop where
  settings : x.settings = y.settings
  survey : x.survey = y.survey
  hasFile : ∀ name, (x.hasFile name).outcome = (y.hasFile name).outcome
  entryText : SameFailure x.entryText.outcome y.entryText.outcome

/-- If the entry files say the same as well, the scenes are alike. -/
theorem Scene.SameButEntry.alike {x y : Scene} (h : x.SameButEntry y)
    (htext : x.entryText.outcome = y.entryText.outcome) : x.Alike y where
  settings := h.settings
  files := by rw [h.survey]
  hasFile := fun name _ => h.hasFile name
  entryText := htext
  hooks := fun _ _ => by rw [h.survey]
  components := fun _ _ => by rw [h.survey]

namespace Check

variable {x y : Scene} {sec : Section} {c : Check}

/-! ### No text, no verdict -/

theorem candidates_of_pageSection (hx : x.entryText.outcome = .ok none)
    (h : (pageSection x).outcome = .ok sec) : sec.candidates = [] := by
  unfold pageSection at h
  obtain ⟨files, -, h⟩ := traced_bind_eq_ok.mp h
  split at h
  · obtain rfl := traced_pure_eq_ok.mp h
    rfl
  · obtain ⟨text, htext, h⟩ := traced_bind_eq_ok.mp h
    obtain rfl := Except.ok.inj (hx.symm.trans htext)
    obtain rfl := traced_pure_eq_ok.mp h
    rfl

theorem candidates_of_duplicateSection (hx : x.entryText.outcome = .ok none)
    (h : (duplicateSection x).outcome = .ok sec) : sec.candidates = [] := by
  unfold duplicateSection at h
  obtain ⟨inHooks, -, h⟩ := traced_bind_eq_ok.mp h
  split at h
  · obtain rfl := traced_pure_eq_ok.mp h
    rfl
  · obtain ⟨inUi, -, h⟩ := traced_bind_eq_ok.mp h
    split at h
    · obtain rfl := traced_pure_eq_ok.mp h
      rfl
    · obtain ⟨text, htext, h⟩ := traced_bind_eq_ok.mp h
      obtain rfl := Except.ok.inj (hx.symm.trans htext)
      obtain rfl := traced_pure_eq_ok.mp h
      rfl

theorem candidates_of_stylesheetSection (hx : x.entryText.outcome = .ok none)
    (h : (stylesheetSection x).outcome = .ok sec) : sec.candidates = [] := by
  unfold stylesheetSection at h
  obtain ⟨present, -, h⟩ := traced_bind_eq_ok.mp h
  split at h
  · obtain rfl := traced_pure_eq_ok.mp h
    rfl
  · obtain ⟨text, htext, h⟩ := traced_bind_eq_ok.mp h
    obtain rfl := Except.ok.inj (hx.symm.trans htext)
    obtain rfl := traced_pure_eq_ok.mp h
    rfl

/-- **Without the text of the entry file, a check against it flags nothing.** -/
theorem candidates_of_unread (hc : c.JudgesByEntry) (hx : x.entryText.outcome = .ok none)
    (h : (c.run x).outcome = .ok sec) : sec.candidates = [] := by
  cases c with
  | components => exact absurd hc (by decide)
  | hooks => exact absurd hc (by decide)
  | pages => exact candidates_of_pageSection hx h
  | duplicate => exact candidates_of_duplicateSection hx h
  | stylesheet => exact candidates_of_stylesheetSection hx h
  | assets => exact absurd hc (by decide)

/-! ### What the text says is no reason to fail -/

variable (h : x.SameButEntry y)

include h

theorem sameFailure_pageSection : SameFailure (pageSection x).outcome (pageSection y).outcome := by
  unfold pageSection
  rw [h.settings, h.survey]
  refine SameFailure.bind_of_eq rfl fun files _ => ?_
  split
  · exact sameFailure_of_ok _ _
  · refine h.entryText.bind_ok fun text => ?_
    cases text with
    | none => exact ⟨_, rfl⟩
    | some text => exact ⟨_, rfl⟩

theorem sameFailure_duplicateSection_of_sameButEntry :
    SameFailure (duplicateSection x).outcome (duplicateSection y).outcome := by
  unfold duplicateSection
  rw [h.settings]
  refine SameFailure.bind_of_eq (h.hasFile _) fun inHooks _ => ?_
  split
  · exact sameFailure_of_ok _ _
  · refine SameFailure.bind_of_eq (h.hasFile _) fun inUi _ => ?_
    split
    · exact sameFailure_of_ok _ _
    · refine h.entryText.bind_ok fun text => ?_
      cases text with
      | none => exact ⟨_, rfl⟩
      | some text =>
        simp only
        split
        · exact ⟨_, rfl⟩
        · split
          · exact ⟨_, rfl⟩
          · exact ⟨_, rfl⟩

theorem sameFailure_stylesheetSection :
    SameFailure (stylesheetSection x).outcome (stylesheetSection y).outcome := by
  unfold stylesheetSection
  rw [h.settings]
  refine SameFailure.bind_of_eq (h.hasFile _) fun present _ => ?_
  split
  · exact sameFailure_of_ok _ _
  · refine h.entryText.bind_ok fun text => ?_
    cases text with
    | none => exact ⟨_, rfl⟩
    | some text =>
      simp only
      split
      · exact ⟨_, rfl⟩
      · exact ⟨_, rfl⟩

/-- A check that does not look at the entry file gives the same section. -/
theorem run_of_sameButEntry (hc : ¬ c.JudgesByEntry) (hassets : c ≠ assets) :
    (c.run x).outcome = (c.run y).outcome := by
  cases c with
  | components =>
    have hsection : componentSection x = componentSection y := by
      rw [componentSection, componentSection, h.settings, h.survey]
    exact congrArg (fun s => (Traced.ofFault s).outcome) hsection
  | hooks =>
    have hsection : hookSection x = hookSection y := by
      rw [hookSection, hookSection, h.settings, h.survey]
    exact congrArg (fun s => (Traced.ofFault s).outcome) hsection
  | pages => exact absurd (by decide) hc
  | duplicate => exact absurd (by decide) hc
  | stylesheet => exact absurd (by decide) hc
  | assets => exact absurd rfl hassets

/-- **What the entry file says is no reason for a check to fail.** -/
theorem sameFailure_run_of_sameButEntry (hassets : c ≠ assets) :
    SameFailure (c.run x).outcome (c.run y).outcome := by
  cases c with
  | components => exact .of_eq (run_of_sameButEntry h (by decide) hassets)
  | hooks => exact .of_eq (run_of_sameButEntry h (by decide) hassets)
  | pages => exact sameFailure_pageSection h
  | duplicate => exact sameFailure_duplicateSection_of_sameButEntry h
  | stylesheet => exact sameFailure_stylesheetSection h
  | assets => exact absurd rfl hassets

end Check

end Unimported
