import Unimported.CommandLine.Run
import Unimported.Proofs.Settings.Accepted

/-!
# Flags and the verbosity

The flags of the command are values for settings, given last, so they decide over the settings file.
All that they decide is the verbosity: with a flag, settings are loaded just when they are without,
and no other setting changes.  The verbosity is looked up for nothing but the journal.

## Main definitions

* `Settings.withVerbosity` — settings with another verbosity.
* `CommandLine.Options.asked?` — the verbosity that flags ask for.

## Main results

* `Settings.applyFlags_overrides` — what becomes of the values that the flags give.
* `Settings.ofTable_set_verbosity` — a verbosity that is given last takes the place of another.
* `Settings.load_overrides` — **flags change the verbosity and nothing else.**
* `Settings.exists_shown_withVerbosity` — settings can be shown whatever their verbosity is.
-/

namespace Unimported

open Outcome

/-- The verbosity that flags ask for; being quiet wins. -/
def CommandLine.Options.asked? (o : CommandLine.Options) : Option Verbosity :=
  if o.has .quiet then some .quiet else if o.has .verbose then some .verbose else none

namespace Settings

open CommandLine (Options)

variable {fs : FileSystem} {s : Settings} {t : Table} {o : Options}

/-- Settings with another verbosity. -/
def withVerbosity (s : Settings) (v : Verbosity) : Settings := { s with verbosity := v }

/-- Settings with the verbosity that flags ask for, if they do. -/
def flagged (s : Settings) (o : Options) : Settings := s.withVerbosity (o.asked?.getD s.verbosity)

/-! ### Values given last -/

theorem given_set (t : Table) (f g : Field) (v : Value) :
    given (Table.set t f.key v) g = if f = g then v else given t g := by
  unfold given
  rw [Table.get?_set]
  by_cases h : f = g
  · rw [if_pos h, if_pos (congrArg Field.key h)]
    rfl
  · rw [if_neg h, if_neg fun hkey => h (eq_of_key_eq f (mem_all f) g (mem_all g) hkey)]

/-- No table names something unknown because a setting is given in it. -/
theorem find?_names_set (t : Table) (f : Field) (v : Value)
    (h : (Table.names t).find? (fun name => !Field.keys.contains name) = none) :
    (Table.names (Table.set t f.key v)).find? (fun name => !Field.keys.contains name) = none := by
  rw [Table.names_set]
  split
  · exact h
  · rw [List.find?_append, h]
    simp [Field.key_mem_keys f]

/-- **A verbosity that is given last takes the place of another.** -/
theorem ofTable_set_verbosity (h : ofTable t = .ok s) (v : Verbosity) :
    ofTable (Table.set t Field.verbosity.key (.text v.name)) = .ok (s.withVerbosity v) := by
  unfold ofTable at h ⊢
  split at h
  · cases h
  · next hnames =>
    rw [find?_names_set t .verbosity (.text v.name) hnames]
    simp only [bind_eq_ok, pure_eq_ok] at h
    obtain ⟨sourceDir, h₁, entryFile, h₂, uiDir, h₃, hooksDir, h₄, pagesDir, h₅, assetsDir, h₆,
      stylesheet, h₇, duplicateName, h₈, source, h₉, page, h₁₀, verbosity, -, rfl⟩ := h
    simp only [given_set, reduceCtorEq, if_true, if_false, h₁, h₂, h₃, h₄, h₅, h₆, h₇, h₈, h₉, h₁₀,
      acceptVerbosity_name]
    rfl

/-! ### Flags -/

/-- What becomes of the values that the flags give: the verbosity that they ask for, if they do. -/
theorem applyFlags_overrides (o : Options) :
    applyFlags (Table.ofList o.overrides) =
      match o.asked? with
      | none => []
      | some v => [(Field.verbosity.key, .text v.name)] := by
  unfold Options.overrides Options.asked?
  cases o.has .verbose <;> cases o.has .quiet <;> rfl

/-- Keeping sequences leaves a text that was given as it is. -/
theorem map_kept_set (t : Table) (name text : String) :
    (Table.set t name (.text text)).map (fun e => (e.1, kept e.2)) =
      Table.set (t.map fun e => (e.1, kept e.2)) name (.text text) := by
  induction t with
  | nil => rfl
  | cons e t ih =>
    obtain ⟨k, v⟩ := e
    simp only [Table.set, List.map_cons]
    split
    · rfl
    · rw [List.map_cons, ih]

theorem find?_entries_eq_none (t : Table) :
    t.find? (fun e => !Field.keys.contains e.1) = none ↔
      (Table.names t).find? (fun name => !Field.keys.contains name) = none := by
  unfold Table.names
  rw [List.find?_map, Option.map_eq_none_iff]
  rfl

/-- Settings are built from all tables together, if no name in them is unknown. -/
theorem combine_of_known {m : Table} {overrides : List (String × Value)}
    (hmerged : Table.merge t (applyFlags (Table.ofList overrides)) = m)
    (hknown : m.find? (fun e => !Field.keys.contains e.1) = none) :
    combine t [] overrides = ofTable (m.map fun e => (e.1, kept e.2)) := by
  have hmerged' : Table.merge (Table.merge t []) (applyFlags (Table.ofList overrides)) = m := hmerged
  unfold combine
  simp only [hmerged', hknown]

/-- Flags change the verbosity of the settings that a project's table gives. -/
theorem combine_overrides (h : combine t [] [] = .ok s) (o : Options) :
    combine t [] o.overrides = .ok (s.flagged o) := by
  cases hknown : t.find? fun e => !Field.keys.contains e.1 with
  | some e =>
    have hmerged : Table.merge (Table.merge t []) (applyFlags (Table.ofList [])) = t := rfl
    unfold combine at h
    simp only [hmerged, hknown] at h
    cases h
  | none =>
    have hflags := applyFlags_overrides o
    rw [combine_of_known (m := t) rfl hknown] at h
    unfold flagged
    cases hasked : o.asked? with
    | none =>
      rw [hasked] at hflags
      rw [combine_of_known (m := t) (by rw [hflags]; rfl) hknown]
      exact h
    | some v =>
      rw [hasked] at hflags
      have hset := (find?_entries_eq_none _).mpr
        (find?_names_set t .verbosity (.text v.name) ((find?_entries_eq_none t).mp hknown))
      rw [combine_of_known (by rw [hflags]; rfl) hset, map_kept_set]
      exact ofTable_set_verbosity h v

/-- **Flags change the verbosity of the settings that are loaded, and nothing else.** -/
theorem load_overrides {place : Path} (h : load fs (some place) none [] = .ok s) (o : Options) :
    load fs (some place) none o.overrides = .ok (s.flagged o) := by
  unfold load at h ⊢
  obtain ⟨project, hproject, h⟩ := bind_eq_ok.mp h
  obtain ⟨named, hnamed, h⟩ := bind_eq_ok.mp h
  obtain rfl : [] = named := Except.ok.inj hnamed
  exact bind_eq_ok.mpr ⟨project, hproject, bind_eq_ok.mpr ⟨[], hnamed, combine_overrides h o⟩⟩

/-! ### Showing settings -/

/-- Settings can be shown if each of them can. -/
theorem exists_mapM_iff {fields : List Field} :
    (∃ texts, fields.mapM s.shownField = .ok texts) ↔ ∀ f ∈ fields, ∃ text, s.shownField f = .ok text := by
  induction fields with
  | nil => simp [pure, Except.pure]
  | cons f fields ih =>
    simp only [List.mapM_cons, bind_eq_ok, pure_eq_ok, List.forall_mem_cons]
    constructor
    · rintro ⟨texts, text, hf, rest, hrest, -⟩
      exact ⟨⟨text, hf⟩, ih.mp ⟨rest, hrest⟩⟩
    · rintro ⟨⟨text, hf⟩, hall⟩
      obtain ⟨rest, hrest⟩ := ih.mpr hall
      exact ⟨text :: rest, text, hf, rest, hrest, rfl⟩

theorem exists_shown_iff :
    (∃ text, s.shown = .ok text) ↔ ∀ f ∈ Field.all, ∃ text, s.shownField f = .ok text := by
  rw [← exists_mapM_iff]
  unfold shown
  simp only [bind_eq_ok, pure_eq_ok]
  constructor
  · rintro ⟨text, texts, htexts, -⟩
    exact ⟨texts, htexts⟩
  · rintro ⟨texts, htexts⟩
    exact ⟨_, texts, htexts, rfl⟩

/-- **Settings can be shown whatever their verbosity is.** -/
theorem exists_shown_withVerbosity (h : ∃ text, s.shown = .ok text) (v : Verbosity) :
    ∃ text, (s.withVerbosity v).shown = .ok text := by
  rw [exists_shown_iff] at h ⊢
  intro f hf
  by_cases hv : f = .verbosity
  · subst hv
    exact ⟨_, rfl⟩
  · -- the other settings are the same
    have hsame : (s.withVerbosity v).value f = s.value f := by
      cases f with
      | verbosity => exact absurd rfl hv
      | _ => rfl
    unfold shownField
    rw [hsame]
    exact h f hf

end Settings

end Unimported
