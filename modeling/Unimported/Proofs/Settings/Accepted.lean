import Unimported.Proofs.Outcome
import Unimported.Settings.Basic

/-!
# Accepted settings

Settings are built from values that were checked, so what was checked can be relied on: a name is
not blank, does not start at a root, and holds no backslash.

## Main definitions

* `Settings.IsInside` — what is checked of a name.
* `Settings.WellTyped` — accepted settings whose sequences are sequences of texts.

* `Settings.tableOf` — a table that gives values to settings.

## Main results

* `Settings.exists_inside_of_ofTable` — every name in accepted settings was checked.
* `Settings.exists_ofTable_iff` — **which settings are accepted.**
-/

namespace Unimported.Settings

/-- What is checked of a name: something is said, and it stays inside the project. -/
structure IsInside (name : String) : Prop where
  not_blank : Text.allBlank name = false
  relative : Text.opens "/" name = false
  no_backslash : '\\' ∉ name.toList

/-- The settings that name something in the project. -/
def nameFields : List Field :=
  [.sourceDir, .entryFile, .uiDir, .hooksDir, .pagesDir, .assetsDir, .stylesheet, .duplicateName]

/-- Accepted settings in which extensions and names to skip are sequences of texts. -/
structure WellTyped (s : Settings) : Prop where
  accepted : ∃ t, ofTable t = .ok s
  sourceExtensions : ∃ suffixes, s.sourceExtensions = .listed suffixes
  pageExtensions : ∃ suffixes, s.pageExtensions = .listed suffixes
  skipDirs : ∃ names, s.skipDirs = .texts names

theorem reject_ne_ok {α : Type} {f : Field} {v : Value} {reason : String} {a : α} :
    reject f v reason ≠ .ok a := by
  simp [reject]

/-- A name that is accepted is a text that was checked. -/
theorem acceptName_eq_ok {f : Field} {v : Value} {name : String} (h : acceptName f v = .ok name) :
    v = .text name ∧ IsInside name := by
  unfold acceptName at h
  split at h
  · next s =>
    split at h
    · exact absurd h reject_ne_ok
    · next hb =>
      split at h
      · exact absurd h reject_ne_ok
      · next hs =>
        obtain rfl := Except.ok.inj h
        simp only [Bool.or_eq_true, not_or, Bool.not_eq_true] at hb hs
        refine ⟨rfl, hb, hs.1, ?_⟩
        simpa using hs.2
  · exact absurd h reject_ne_ok

/-- **Every name in accepted settings was checked.** -/
theorem exists_inside_of_ofTable {t : Table} {s : Settings} (h : ofTable t = .ok s) :
    ∀ f ∈ nameFields, ∃ name, s.value f = .text name ∧ IsInside name := by
  unfold ofTable at h
  split at h
  · cases h
  · simp only [Outcome.bind_eq_ok, Outcome.pure_eq_ok] at h
    obtain ⟨sourceDir, h₁, entryFile, h₂, uiDir, h₃, hooksDir, h₄, pagesDir, h₅, assetsDir, h₆,
      stylesheet, h₇, duplicateName, h₈, -, -, -, -, -, -, rfl⟩ := h
    intro f hf
    simp only [nameFields, List.mem_cons, List.not_mem_nil, or_false] at hf
    rcases hf with rfl | rfl | rfl | rfl | rfl | rfl | rfl | rfl
    · exact ⟨_, rfl, (acceptName_eq_ok h₁).2⟩
    · exact ⟨_, rfl, (acceptName_eq_ok h₂).2⟩
    · exact ⟨_, rfl, (acceptName_eq_ok h₃).2⟩
    · exact ⟨_, rfl, (acceptName_eq_ok h₄).2⟩
    · exact ⟨_, rfl, (acceptName_eq_ok h₅).2⟩
    · exact ⟨_, rfl, (acceptName_eq_ok h₆).2⟩
    · exact ⟨_, rfl, (acceptName_eq_ok h₇).2⟩
    · exact ⟨_, rfl, (acceptName_eq_ok h₈).2⟩

theorem WellTyped.inside {s : Settings} (h : s.WellTyped) {f : Field} (hf : f ∈ nameFields)
    {name : String} (hv : s.value f = .text name) : IsInside name := by
  obtain ⟨t, ht⟩ := h.accepted
  obtain ⟨name', hv', hin⟩ := exists_inside_of_ofTable ht f hf
  rw [hv, Value.text.injEq] at hv'
  exact hv' ▸ hin

theorem WellTyped.hooksDir {s : Settings} (h : s.WellTyped) : IsInside s.hooksDir :=
  h.inside (f := .hooksDir) (by decide) rfl

theorem WellTyped.uiDir {s : Settings} (h : s.WellTyped) : IsInside s.uiDir :=
  h.inside (f := .uiDir) (by decide) rfl

/-- The settings that nothing was said about are well-typed. -/
theorem wellTyped_default : default.WellTyped where
  accepted := ⟨[], ofTable_nil⟩
  sourceExtensions := ⟨_, rfl⟩
  pageExtensions := ⟨_, rfl⟩
  skipDirs := ⟨_, rfl⟩

/-! ### Settings that are accepted -/

theorem acceptName_of_inside {f : Field} {name : String} (h : IsInside name) :
    acceptName f (.text name) = .ok name := by
  refine acceptName_text h.not_blank ?_
  rw [h.relative, Bool.false_or, Bool.eq_false_iff]
  exact fun hmem => h.no_backslash (List.contains_iff_mem.mp hmem)

theorem eq_of_key_eq : ∀ f ∈ Field.all, ∀ g ∈ Field.all, f.key = g.key → f = g := by decide +kernel

theorem mem_all (f : Field) : f ∈ Field.all := by cases f <;> decide

/-- A table that gives values to settings. -/
def tableOf (values : List (Field × Value)) : Table := values.map fun e => (e.1.key, e.2)

/-- What is given under the name of a setting is the value of this setting, and of no other. -/
theorem given_cons (f g : Field) (v : Value) (values : List (Field × Value)) :
    given (tableOf ((f, v) :: values)) g = if f = g then v else given (tableOf values) g := by
  unfold given tableOf
  rw [List.map_cons, Table.get?]
  by_cases h : f = g
  · rw [if_pos h, if_pos (congrArg Field.key h)]
    rfl
  · rw [if_neg h, if_neg fun hkey => h (eq_of_key_eq f (mem_all f) g (mem_all g) hkey)]

/-- A table of settings names nothing else. -/
theorem find?_names_tableOf (values : List (Field × Value)) :
    ((tableOf values).names.find? fun name => !Field.keys.contains name) = none := by
  rw [List.find?_eq_none]
  intro name hname
  obtain ⟨e, he, rfl⟩ := List.mem_map.mp hname
  obtain ⟨x, -, rfl⟩ := List.mem_map.mp he
  simp [Field.key_mem_keys x.1]

theorem acceptVerbosity_name (v : Verbosity) : acceptVerbosity (.text v.name) = .ok v := by
  cases v <;> rfl

/-- **Settings are accepted if and only if** their names pass the checks and their extensions are
accepted; nothing is asked of the others. -/
theorem exists_ofTable_iff {s : Settings} :
    (∃ t, ofTable t = .ok s) ↔
      (∀ f ∈ nameFields, ∀ name, s.value f = .text name → IsInside name) ∧
      (∃ v, acceptExtensions .sourceExtensions v = .ok s.sourceExtensions) ∧
      ∃ v, acceptExtensions .pageExtensions v = .ok s.pageExtensions := by
  constructor
  · rintro ⟨t, ht⟩
    refine ⟨fun f hf name hv => ?_, ?_⟩
    · obtain ⟨name', hv', hin⟩ := exists_inside_of_ofTable ht f hf
      exact Value.text.inj (hv'.symm.trans hv) ▸ hin
    · unfold ofTable at ht
      split at ht
      · cases ht
      · simp only [Outcome.bind_eq_ok, Outcome.pure_eq_ok] at ht
        obtain ⟨_, -, _, -, _, -, _, -, _, -, _, -, _, -, _, -, _, hsource, _, hpage, _, -, rfl⟩ := ht
        exact ⟨⟨_, hsource⟩, ⟨_, hpage⟩⟩
  · rintro ⟨hnames, ⟨source, hsource⟩, ⟨page, hpage⟩⟩
    refine ⟨tableOf (nameFields.map (fun f => (f, s.value f)) ++ [(.sourceExtensions, source),
      (.pageExtensions, page), (.skipDirs, s.skipDirs), (.verbosity, .text s.verbosity.name)]), ?_⟩
    have hname : ∀ f ∈ nameFields, ∀ name, s.value f = .text name →
        acceptName f (.text name) = .ok name := fun f hf name hv =>
      acceptName_of_inside (hnames f hf name hv)
    have hsourceDir := hname .sourceDir (by decide) _ rfl
    have hentryFile := hname .entryFile (by decide) _ rfl
    have huiDir := hname .uiDir (by decide) _ rfl
    have hhooksDir := hname .hooksDir (by decide) _ rfl
    have hpagesDir := hname .pagesDir (by decide) _ rfl
    have hassetsDir := hname .assetsDir (by decide) _ rfl
    have hstylesheet := hname .stylesheet (by decide) _ rfl
    have hduplicateName := hname .duplicateName (by decide) _ rfl
    unfold ofTable
    rw [find?_names_tableOf]
    simp only [nameFields, List.map_cons, List.map_nil, List.cons_append, List.nil_append,
      given_cons, reduceCtorEq, if_true, if_false, value, hsourceDir, hentryFile, huiDir, hhooksDir,
      hpagesDir, hassetsDir, hstylesheet, hduplicateName, hsource, hpage, acceptVerbosity_name]
    rfl

/-- Settings stay well-typed when names take the place of others. -/
theorem WellTyped.of_names {s s' : Settings} (hs : s.WellTyped)
    (hnames : ∀ f ∈ nameFields, ∀ name, s'.value f = .text name → IsInside name)
    (hsource : s'.sourceExtensions = s.sourceExtensions)
    (hpage : s'.pageExtensions = s.pageExtensions) (hskip : s'.skipDirs = s.skipDirs) :
    s'.WellTyped where
  accepted := by
    obtain ⟨-, hextensions⟩ := exists_ofTable_iff.mp hs.accepted
    rw [← hsource, ← hpage] at hextensions
    exact exists_ofTable_iff.mpr ⟨hnames, hextensions⟩
  sourceExtensions := hsource ▸ hs.sourceExtensions
  pageExtensions := hpage ▸ hs.pageExtensions
  skipDirs := hskip ▸ hs.skipDirs

/-! ### The texts of checked names -/

theorem IsInside.toList_ne_nil {name : String} (h : IsInside name) : name.toList ≠ [] := by
  intro hnil
  have hb := h.not_blank
  simp [Text.allBlank, hnil] at hb

theorem IsInside.head_ne_slash {name : String} (h : IsInside name) :
    name.toList.head? ≠ some '/' := by
  have hr := h.relative
  unfold Text.opens at hr
  obtain ⟨c, cs, hcs⟩ := List.exists_cons_of_ne_nil h.toList_ne_nil
  rw [hcs] at hr ⊢
  intro hc
  simp [Option.some.inj hc] at hr

/-- What stands behind a checked name does not change where it starts. -/
theorem IsInside.head_append {name : String} (h : IsInside name) (s : String) :
    (name ++ s).toList.head? = name.toList.head? := by
  obtain ⟨c, cs, hcs⟩ := List.exists_cons_of_ne_nil h.toList_ne_nil
  rw [String.toList_append, hcs, List.cons_append, List.head?_cons, List.head?_cons]

end Unimported.Settings
