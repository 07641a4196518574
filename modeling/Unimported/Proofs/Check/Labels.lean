import Unimported.Check.Run
import Unimported.Proofs.Outcome

/-!
# What kind of file a check flags

Each check flags files of one kind only, so the label of a candidate tells which check gave it.

* `Check.label?` — the kind of file that a check flags.
* `Check.label_of_run` — every candidate of a check has its label.
-/

namespace Unimported.Check

open Outcome

/-- The kind of file that a check flags; assets are only counted. -/
def label? : Check → Option String
  | components => some "UI Component"
  | hooks => some "Hook"
  | pages => some "Page"
  | duplicate => some "Duplicate"
  | stylesheet => some "Stylesheet"
  | assets => none

variable {x : Scene} {sec : Section}

theorem label_of_componentSection (h : componentSection x = .ok sec) :
    ∀ k ∈ sec.candidates, k.label = "UI Component" := by
  unfold componentSection at h
  obtain ⟨files, -, h⟩ := bind_eq_ok.mp h
  obtain rfl := pure_eq_ok.mp h
  intro k hk
  obtain ⟨f, -, rfl⟩ := List.mem_map.mp hk
  rfl

theorem label_of_hookSection (h : hookSection x = .ok sec) :
    ∀ k ∈ sec.candidates, k.label = "Hook" := by
  unfold hookSection at h
  obtain ⟨files, -, h⟩ := bind_eq_ok.mp h
  obtain rfl := pure_eq_ok.mp h
  intro k hk
  obtain ⟨f, -, rfl⟩ := List.mem_map.mp hk
  rfl

theorem label_of_pageSection (h : (pageSection x).outcome = .ok sec) :
    ∀ k ∈ sec.candidates, k.label = "Page" := by
  unfold pageSection at h
  obtain ⟨files, -, h⟩ := traced_bind_eq_ok.mp h
  split at h
  · obtain rfl := traced_pure_eq_ok.mp h
    simp
  · obtain ⟨text, -, h⟩ := traced_bind_eq_ok.mp h
    split at h
    · obtain rfl := traced_pure_eq_ok.mp h
      simp
    · obtain rfl := traced_pure_eq_ok.mp h
      intro k hk
      obtain ⟨f, -, rfl⟩ := List.mem_map.mp hk
      rfl

theorem label_of_duplicateSection (h : (duplicateSection x).outcome = .ok sec) :
    ∀ k ∈ sec.candidates, k.label = "Duplicate" := by
  unfold duplicateSection at h
  obtain ⟨inHooks, -, h⟩ := traced_bind_eq_ok.mp h
  split at h
  · obtain rfl := traced_pure_eq_ok.mp h
    simp
  · obtain ⟨inUi, -, h⟩ := traced_bind_eq_ok.mp h
    split at h
    · obtain rfl := traced_pure_eq_ok.mp h
      simp
    · obtain ⟨text, -, h⟩ := traced_bind_eq_ok.mp h
      split at h
      · obtain rfl := traced_pure_eq_ok.mp h
        simp
      · dsimp only at h
        -- the hooks are asked first, then the components
        split at h
        · obtain rfl := traced_pure_eq_ok.mp h
          simp
        · split at h
          · obtain rfl := traced_pure_eq_ok.mp h
            simp
          · obtain rfl := traced_pure_eq_ok.mp h
            simp

theorem label_of_stylesheetSection (h : (stylesheetSection x).outcome = .ok sec) :
    ∀ k ∈ sec.candidates, k.label = "Stylesheet" := by
  unfold stylesheetSection at h
  obtain ⟨present, -, h⟩ := traced_bind_eq_ok.mp h
  split at h
  · obtain rfl := traced_pure_eq_ok.mp h
    simp
  · obtain ⟨text, -, h⟩ := traced_bind_eq_ok.mp h
    split at h
    · obtain rfl := traced_pure_eq_ok.mp h
      simp
    · split at h
      · obtain rfl := traced_pure_eq_ok.mp h
        simp
      · obtain rfl := traced_pure_eq_ok.mp h
        simp

theorem candidates_of_assetSection (h : assetSection x = .ok sec) : sec.candidates = [] := by
  unfold assetSection at h
  obtain ⟨present, -, h⟩ := bind_eq_ok.mp h
  split at h
  · obtain rfl := pure_eq_ok.mp h
    rfl
  · split at h
    · cases h
    · obtain rfl := pure_eq_ok.mp h
      rfl

/-- **Every candidate of a check has its label.** -/
theorem label_of_run {c : Check} (h : (run x c).outcome = .ok sec) :
    ∀ k ∈ sec.candidates, c.label? = some k.label := by
  intro k hk
  cases c with
  | components => rw [label_of_componentSection (ofFault_eq_ok.mp h) k hk]; rfl
  | hooks => rw [label_of_hookSection (ofFault_eq_ok.mp h) k hk]; rfl
  | pages => rw [label_of_pageSection h k hk]; rfl
  | duplicate => rw [label_of_duplicateSection h k hk]; rfl
  | stylesheet => rw [label_of_stylesheetSection h k hk]; rfl
  | assets =>
    rw [candidates_of_assetSection h] at hk
    cases hk

/-- A label tells which check gave it. -/
theorem eq_of_label {c d : Check} {l : String} (hc : c.label? = some l) (hd : d.label? = some l) :
    c = d := by
  have hall : ∀ c ∈ all, ∀ d ∈ all, c.label?.isSome → c.label? = d.label? → c = d := by decide
  have hmem : ∀ c : Check, c ∈ all := fun c => by
    cases c with
    | _ => decide
  exact hall c (hmem c) d (hmem d) (by rw [hc]; rfl) (hc.trans hd.symm)

theorem eq_hooks_of_label {c : Check} (h : c.label? = some "Hook") : c = hooks :=
  eq_of_label h rfl

theorem eq_components_of_label {c : Check} (h : c.label? = some "UI Component") :
    c = components :=
  eq_of_label h rfl

end Unimported.Check
