import Unimported.Proofs.Settings.Loading
import Unimported.Proofs.Toml.Distinct

/-!
# Which value counts

Settings come from the settings file of a project, from a file that is named, and from the values of
a caller, and what comes later decides.  The flags of a caller are no settings: each that counts as
true stands for a verbosity, and being quiet wins.  Names are looked at before any value, in the order
in which they are given, and the first that no setting has is refused with the value that counts.

## Main definitions

* `Settings.Holds`, `Settings.ProjectHolds`, `Settings.NamedHolds` — the tables of settings files.
* `Settings.decisive?` — the value under a name that counts.
* `Settings.due` — the value that a setting is to have.
* `Settings.mentioned` — the names in the order in which they are given.

## Main results

* `Settings.get?_applyFlags`, `Settings.find?_applyFlags` — what becomes of the flags.
* `Settings.ofTable_of_fits` — settings have the values that they are given, if these fit.
* `Settings.load_follows` — **loading settings follows the precedence of the places.**
-/

namespace Unimported.Settings

open Outcome

/-! ### Flags -/

/-- The flags, which a caller gives among the values. -/
def flagNames : List String := ["verbose", "quiet"]

/-- The values of a caller without the flags. -/
def unflagged (given : Table) : Table := given.filter fun e => e.1 ∉ flagNames

/-- Whether a flag is given with a value that counts as true. -/
def raised (given : Table) (flag : String) : Bool := (Table.get? given flag).any Value.isTrue

/-- The verbosity that the flags of a caller ask for; being quiet wins. -/
def askedBy (given : Table) : Option Verbosity :=
  if raised given "quiet" then some .quiet
  else if raised given "verbose" then some .verbose else none

section Flags

/-- What one flag does to the values under the names. -/
theorem get?_applyFlag (flag : String) (v : Verbosity) (t : Table) (name : String) :
    Table.get? (applyFlag flag v t) name =
      if name = flag then none
      else if name = Field.verbosity.key ∧ raised t flag = true then some (.text v.name)
      else Table.get? t name := by
  unfold applyFlag raised
  cases hget : Table.get? t flag with
  | none =>
    by_cases hname : name = flag
    · simp [hname, hget]
    · simp [hname]
  | some x =>
    simp only
    rw [without, Table.get?_filter fun n => n != flag]
    by_cases hname : name = flag
    · simp [hname]
    · cases htrue : x.isTrue with
      | false => simp [hname, htrue]
      | true =>
        simp only [if_true, Table.get?_set, Option.any_some, htrue, and_true, hname, if_false,
          bne_iff_ne, ne_eq, not_false_eq_true, eq_comm (a := Field.verbosity.key)]

/-- **What the flags do to the values under the names**: they are dropped, and they may take the place
of the verbosity. -/
theorem get?_applyFlags (t : Table) (name : String) :
    Table.get? (applyFlags t) name =
      if name = Field.verbosity.key then
        ((askedBy t).map fun v => .text v.name).or (Table.get? t name)
      else Table.get? (unflagged t) name := by
  have hquiet : raised (applyFlag "verbose" .verbose t) "quiet" = raised t "quiet" := by
    unfold raised
    rw [get?_applyFlag]
    rfl
  rw [applyFlags, get?_applyFlag, hquiet, get?_applyFlag, unflagged,
    Table.get?_filter fun n => n ∉ flagNames]
  by_cases hv : name = Field.verbosity.key
  · subst hv
    unfold askedBy
    cases raised t "quiet" <;> cases raised t "verbose" <;> rfl
  · by_cases hq : name = "quiet"
    · subst hq
      rfl
    · by_cases hve : name = "verbose"
      · subst hve
        rfl
      · simp [hv, hq, hve, flagNames]

/-- What one flag does to the names, where the verbosity is none that is searched. -/
theorem find?_applyFlag (flag : String) (v : Verbosity) (t : Table) {p : String → Bool}
    (hp : p Field.verbosity.key = false) :
    (Table.names (applyFlag flag v t)).find? p =
      ((Table.names t).filter fun name => name != flag).find? p := by
  unfold applyFlag
  cases hget : Table.get? t flag with
  | none =>
    -- the flag is not given, so there is nothing to drop
    have hall : ∀ name ∈ Table.names t, (name != flag) = true := by
      intro name hname
      rw [bne_iff_ne]
      rintro rfl
      exact Table.get?_eq_none_iff.mp hget hname
    rw [List.filter_eq_self.mpr hall]
  | some x =>
    simp only
    rw [without, Table.names_filter fun n => n != flag]
    split
    · rw [Table.names_set]
      split
      · rfl
      · have hnone :
            List.find? p (List.filter (fun n => n != flag) [Field.verbosity.key]) = none := by
          refine List.find?_eq_none.mpr fun name hname => ?_
          rw [List.mem_singleton.mp (List.mem_filter.mp hname).1, hp]
          exact Bool.false_ne_true
        rw [List.filter_append, List.find?_append, hnone, Option.or_none]
    · rfl

/-- **What the flags do to the names**: they are dropped, where the verbosity is none that is
searched. -/
theorem find?_applyFlags (t : Table) {p : String → Bool} (hp : p Field.verbosity.key = false) :
    (Table.names (applyFlags t)).find? p = (Table.names (unflagged t)).find? p := by
  have hquiet : (fun name => decide ((name != "quiet") = true ∧ p name = true))
      Field.verbosity.key = false := by simp [hp]
  rw [applyFlags, find?_applyFlag _ _ _ hp, List.find?_filter, find?_applyFlag _ _ _ hquiet,
    ← List.find?_filter, List.filter_filter, unflagged, Table.names_filter fun n => n ∉ flagNames]
  congr 2
  funext name
  rw [Bool.eq_iff_iff]
  simp [flagNames, and_comm]

theorem nodup_applyFlag (flag : String) (v : Verbosity) {t : Table} (h : t.names.Nodup) :
    (applyFlag flag v t).names.Nodup := by
  unfold applyFlag
  split
  · exact h
  · rw [without, Table.names_filter fun n => n != flag]
    refine List.Pairwise.filter _ ?_
    split
    · exact Table.nodup_set h
    · exact h

theorem nodup_applyFlags {t : Table} (h : t.names.Nodup) : (applyFlags t).names.Nodup :=
  nodup_applyFlag _ _ (nodup_applyFlag _ _ h)

end Flags

/-! ### Values that fit -/

theorem items_of_mapM_dotted? {items : List Value} {suffixes : List String}
    (h : items.mapM dotted? = some suffixes) : items = suffixes.map Value.text := by
  induction items generalizing suffixes with
  | nil =>
    cases h
    rfl
  | cons i items ih =>
    rw [List.mapM_cons] at h
    obtain ⟨s, hs, h⟩ := Option.bind_eq_some_iff.mp h
    obtain ⟨rest, hrest, h⟩ := Option.bind_eq_some_iff.mp h
    cases h
    rw [List.map_cons, ← ih hrest]
    obtain ⟨htext, -⟩ := Option.filter_eq_some_iff.mp hs
    cases i <;> cases htext
    rfl

/-- Extensions that are accepted are the value that was given, as settings keep it. -/
theorem value_of_acceptExtensions {f : Field} {v : Value} {x : Extensions}
    (h : acceptExtensions f v = .ok x) : x.value = kept v := by
  unfold acceptExtensions at h
  simp only at h
  split at h
  · split at h
    · split at h
      · exact Except.ok.inj h ▸ rfl
      · exact absurd h reject_ne_ok
    · next items =>
      split at h
      · next suffixes hm =>
        obtain rfl := Except.ok.inj h
        rw [items_of_mapM_dotted? hm]
        rfl
      · exact absurd h reject_ne_ok
    · next items =>
      split at h
      · next suffixes hm =>
        obtain rfl := Except.ok.inj h
        rw [items_of_mapM_dotted? hm]
        rfl
      · exact absurd h reject_ne_ok
    · split at h
      · exact Except.ok.inj h ▸ rfl
      · exact absurd h reject_ne_ok
    · cases h
  · exact absurd h reject_ne_ok

theorem acceptVerbosity_eq_ok {v : Value} {verbosity : Verbosity}
    (h : acceptVerbosity v = .ok verbosity) : v = .text verbosity.name := by
  unfold acceptVerbosity at h
  split at h
  · next hname =>
    obtain rfl := Except.ok.inj h
    obtain ⟨s, hs, hofName⟩ := Option.bind_eq_some_iff.mp hname
    rw [name_of_ofName? hofName]
    cases v <;> cases hs
    rfl
  · exact absurd h reject_ne_ok

/-- Accepted settings have the values that they were given, as settings keep them. -/
theorem value_of_ofTable {t : Table} {s : Settings} (h : ofTable t = .ok s)
    (hkept : ∀ f, kept (given t f) = given t f) (f : Field) : s.value f = given t f := by
  unfold ofTable at h
  split at h
  · cases h
  · simp only [bind_eq_ok, pure_eq_ok] at h
    obtain ⟨sourceDir, h₁, entryFile, h₂, uiDir, h₃, hooksDir, h₄, pagesDir, h₅, assetsDir, h₆,
      stylesheet, h₇, duplicateName, h₈, source, h₉, page, h₁₀, verbosity, h₁₁, rfl⟩ := h
    cases f with
    | sourceDir => exact (acceptName_eq_ok h₁).1.symm
    | entryFile => exact (acceptName_eq_ok h₂).1.symm
    | uiDir => exact (acceptName_eq_ok h₃).1.symm
    | hooksDir => exact (acceptName_eq_ok h₄).1.symm
    | pagesDir => exact (acceptName_eq_ok h₅).1.symm
    | assetsDir => exact (acceptName_eq_ok h₆).1.symm
    | stylesheet => exact (acceptName_eq_ok h₇).1.symm
    | duplicateName => exact (acceptName_eq_ok h₈).1.symm
    | sourceExtensions => exact (value_of_acceptExtensions h₉).trans (hkept _)
    | pageExtensions => exact (value_of_acceptExtensions h₁₀).trans (hkept _)
    | verbosity => exact (acceptVerbosity_eq_ok h₁₁).symm
    | skipDirs => rfl

theorem kept_kept (v : Value) : kept (kept v) = kept v := by cases v <;> rfl

/-- No default is a sequence of a document. -/
theorem kept_default (f : Field) : kept f.default = f.default := by cases f <;> rfl

theorem chosen_eq (t : Table) (f : Field) :
    chosen t f = kept ((Table.get? t f.key).getD f.default) := by
  unfold chosen given
  rw [Table.get?_map]
  cases Table.get? t f.key with
  | none => exact (kept_default f).symm
  | some v => rfl

/-- **Settings have the values that are chosen, if these fit** and every name is that of a
setting. -/
theorem ofTable_of_fits {t : Table} (ht : ∀ name ∈ t.names, name ∈ Field.keys)
    (hfits : ∀ f, Fits f (chosen t f)) :
    ∃ s, ofTable (t.map fun e => (e.1, kept e.2)) = .ok s ∧ ∀ f, s.value f = chosen t f := by
  have hnames : ∀ name ∈ Table.names (t.map fun e => (e.1, kept e.2)), name ∈ Field.keys := by
    rw [Table.names_map]
    exact ht
  have hnone : reason? (ofTable (t.map fun e => (e.1, kept e.2))) = none := by
    rw [reason?_ofTable hnames, List.findSome?_eq_none_iff]
    intro f hf
    obtain ⟨α, x, hjudged, hx⟩ := refusal_eq f hf (chosen t f)
    exact hx.trans (hjudged.reason?_eq_none.mpr (hfits f))
  cases h : ofTable (t.map fun e => (e.1, kept e.2)) with
  | error e =>
    rw [h] at hnone
    cases hnone
  | ok s =>
    refine ⟨s, rfl, value_of_ofTable h fun f => ?_⟩
    show kept (chosen t f) = chosen t f
    rw [chosen_eq, kept_kept]

/-! ### Three places -/

section Places

variable {project named given : Table} {overrides : List (String × Value)}

/-- The value under a name that counts: that of the caller, or else that of the file that is named, or
else that of the project. -/
def decisive? (project named given : Table) (name : String) : Option Value :=
  (Table.get? (unflagged given) name).or ((Table.get? named name).or (Table.get? project name))

/-- The value that a setting is to have: the one that counts, or else the default, sequences as
settings keep them; but the flags decide over the verbosity. -/
def due (project named given : Table) (f : Field) : Value :=
  let asked : Option Value :=
    if f = .verbosity then (askedBy given).map fun v => .text v.name else none
  asked.getD (kept ((decisive? project named given f.key).getD f.default))

/-- The names that are given, by the project, then by the file that is named, then by the caller. -/
def mentioned (project named given : Table) : List String :=
  project.names ++ named.names ++ (unflagged given).names

/-- What stands under a name when all places are put together. -/
theorem get?_merged (project : Table) (hnamed : named.names.Nodup)
    (overrides : List (String × Value)) (name : String) :
    Table.get? (merged project named overrides) name =
      (Table.get? (applyFlags (Table.ofList overrides)) name).or
        ((Table.get? named name).or (Table.get? project name)) := by
  rw [merged, Table.get?_merge_of_nodup _ (nodup_applyFlags (Table.nodup_ofList overrides)),
    Table.get?_merge_of_nodup _ hnamed]

/-- **The values that are checked are those that settings are to have.** -/
theorem chosen_merged (project : Table) (hnamed : named.names.Nodup)
    (overrides : List (String × Value)) (f : Field) :
    chosen (merged project named overrides) f = due project named (Table.ofList overrides) f := by
  rw [chosen_eq, get?_merged project hnamed, get?_applyFlags]
  unfold due decisive?
  by_cases hf : f = .verbosity
  · subst hf
    have hunflagged : Table.get? (unflagged (Table.ofList overrides)) Field.verbosity.key =
        Table.get? (Table.ofList overrides) Field.verbosity.key := by
      rw [unflagged, Table.get?_filter fun n => n ∉ flagNames]
      rfl
    rw [hunflagged]
    cases askedBy (Table.ofList overrides) <;> rfl
  · have hkey : f.key ≠ Field.verbosity.key := fun h =>
      hf (eq_of_key_eq f (mem_all f) .verbosity (mem_all _) h)
    rw [if_neg hkey, if_neg hf]
    rfl

/-- **The first name that no setting has is the first one in the order of the places.** -/
theorem find?_names_merged (project named : Table) (overrides : List (String × Value)) :
    (Table.names (merged project named overrides)).find? (fun name => !Field.keys.contains name) =
      (mentioned project named (Table.ofList overrides)).find? fun name =>
        !Field.keys.contains name := by
  have hverbosity : (fun name => !Field.keys.contains name) Field.verbosity.key = false := by
    simp [Field.key_mem_keys]
  rw [merged, Table.find?_names_merge, List.find?_append, Table.find?_names_merge,
    find?_applyFlags _ hverbosity, ← List.find?_append, mentioned]

end Places

/-! ### Files -/

/-- A file holds the table of settings: the one of that name in its document, or else all of it. -/
def Holds (fs : FileSystem) (path : Path) (t : Table) : Prop :=
  ∃ bytes text data, fs.read path = .ok bytes ∧ Text.Utf8.decode? bytes = some text ∧
    Toml.read text = .ok data ∧
    (Table.get? data tableName = some (.table t) ∨ Table.get? data tableName = none ∧ t = data)

/-- The table of a project: that of the settings file in its root, if there is one. -/
inductive ProjectHolds (fs : FileSystem) : Option Path → Table → Prop where
  /-- There is no project. -/
  | none : ProjectHolds fs none []
  /-- The project has no settings file. -/
  | absent {dir : Path} :
      isThere fs (dir.child fileName) = .ok false → ProjectHolds fs (some dir) []
  /-- The project has a settings file. -/
  | present {dir : Path} {t : Table} :
      Holds fs (dir.child fileName) t → ProjectHolds fs (some dir) t

/-- The table of a settings file that may be named. -/
inductive NamedHolds (fs : FileSystem) : Option Path → Table → Prop where
  /-- No file is named. -/
  | none : NamedHolds fs none []
  /-- A file is named. -/
  | present {path : Path} {t : Table} : Holds fs path t → NamedHolds fs (some path) t

section Files

variable {fs : FileSystem} {root file : Option Path} {path : Path} {t project named : Table}

theorem Holds.isThere (h : Holds fs path t) : isThere fs path = .ok true := by
  obtain ⟨bytes, -, -, hread, -⟩ := h
  obtain ⟨real, hreal, hsome⟩ := locate_of_read hread
  rw [isThere_of_locate hreal, hsome]

/-- **A file holds the table that is read from it.** -/
theorem holds_iff : Holds fs path t ↔ ofFile fs path = .ok t := by
  constructor
  · rintro ⟨bytes, text, data, hread, hdecode, htoml, htable⟩
    unfold ofFile ofText
    simp only [hread, hdecode, htoml]
    rcases htable with htable | ⟨htable, rfl⟩
    · rw [htable]
    · rw [htable]
  · intro h
    unfold ofFile at h
    split at h
    · cases h
    · next bytes hread =>
      split at h
      · cases h
      · next text hdecode =>
        unfold ofText at h
        split at h
        -- a text that is no document holds no table
        iterate 3 cases h
        next data htoml =>
          refine ⟨bytes, text, data, hread, hdecode, htoml, ?_⟩
          split at h
          · next hnone => exact Or.inr ⟨hnone, (Except.ok.inj h).symm⟩
          · next t' htable => exact Or.inl (Except.ok.inj h ▸ htable)
          · cases h

/-- No settings file names a setting twice. -/
theorem Holds.nodup_names (h : Holds fs path t) : t.names.Nodup := by
  obtain ⟨bytes, text, data, -, -, htoml, htable⟩ := h
  have hdistinct := Toml.distinct_read htoml
  rcases htable with htable | ⟨-, rfl⟩
  · exact (hdistinct.get? htable t rfl).nodup_names
  · exact hdistinct.nodup_names

theorem ProjectHolds.projectTable (h : ProjectHolds fs root t) : projectTable fs root = .ok t := by
  cases h with
  | none => rfl
  | absent habsent =>
    show ofProject fs _ = _
    simp only [ofProject, habsent]
    rfl
  | present hfile =>
    show ofProject fs _ = _
    simp only [ofProject, hfile.isThere]
    exact holds_iff.mp hfile

theorem NamedHolds.namedTable (h : NamedHolds fs file t) : namedTable fs file = .ok t := by
  cases h with
  | none => rfl
  | present hfile =>
    show ofNamed fs _ = _
    unfold ofNamed
    rw [hfile.isThere]
    exact holds_iff.mp hfile

theorem NamedHolds.nodup_names (h : NamedHolds fs file t) : t.names.Nodup := by
  cases h with
  | none => exact List.nodup_nil
  | present hfile => exact hfile.nodup_names

/-- What loading makes of the values that three places give. -/
structure Follows (project named given : Table) (loaded : Except Failure Settings) : Prop where
  /-- If every name is that of a setting and the values fit, each setting has the value that it is
  to have. -/
  accepted : (∀ name ∈ mentioned project named given, name ∈ Field.keys) →
    (∀ f, Fits f (due project named given f)) →
    ∃ s, loaded = .ok s ∧ ∀ f, s.value f = due project named given f
  /-- If some name is that of no setting, the first such name is refused with the value that counts;
  a value without a written form stops the refusal. -/
  refused : ∀ name, ((mentioned project named given).find? fun n => n ∉ Field.keys) = some name →
    ∃ v, decisive? project named given name = some v ∧
      (∀ text, v.shown = .ok text →
        loaded = .error (.problem (.setting name text "unknown setting"))) ∧
      ∀ fault, v.shown = .error fault → loaded = .error (.fault fault)

/-- **Loading settings follows the precedence of the places.** -/
theorem load_follows (hproject : ProjectHolds fs root project) (hnamed : NamedHolds fs file named)
    (overrides : List (String × Value)) :
    Follows project named (Table.ofList overrides) (load fs root file overrides) := by
  have hload : load fs root file overrides = combine project named overrides := by
    show (projectTable fs root >>= fun project => namedTable fs file >>= fun named =>
      combine project named overrides) = _
    rw [hproject.projectTable, hnamed.namedTable]
    rfl
  have hnodup := hnamed.nodup_names
  rw [hload]
  have hfind := find?_names_merged project named overrides
  constructor
  · intro hnames hfits
    have hnone : ((mentioned project named (Table.ofList overrides)).find? fun name =>
        !Field.keys.contains name) = none := by
      refine List.find?_eq_none.mpr fun name hname => ?_
      simpa using hnames name hname
    have hknown : ∀ name ∈ (merged project named overrides).names, name ∈ Field.keys := by
      intro name hname
      simpa using List.find?_eq_none.mp (hfind.trans hnone) name hname
    have hentries : ∀ e ∈ merged project named overrides, e.1 ∈ Field.keys := fun e he =>
      hknown e.1 (List.mem_map_of_mem he)
    have hchosen := chosen_merged project hnodup overrides
    rw [combine_of_all_known rfl (find?_unknown_eq_none.mpr hentries)]
    obtain ⟨s, hs, hvalue⟩ := ofTable_of_fits hknown fun f => (hchosen f).symm ▸ hfits f
    exact ⟨s, hs, fun f => (hvalue f).trans (hchosen f)⟩
  · intro name hname
    have hunknown : name ∉ Field.keys := by simpa using List.find?_some hname
    have hsame : (fun n => decide (n ∉ Field.keys)) = fun n => !Field.keys.contains n := by
      funext n
      simp
    rw [hsame, ← hfind] at hname
    -- the first unknown name stands in the merged table with the value that counts
    obtain ⟨v, hv⟩ : ∃ v, Table.get? (merged project named overrides) name = some v := by
      cases hget : Table.get? (merged project named overrides) name with
      | some v => exact ⟨v, rfl⟩
      | none => exact absurd (List.mem_of_find?_eq_some hname) (Table.get?_eq_none_iff.mp hget)
    have hcombine := combine_of_unknown rfl ((Table.find?_entry _).mpr ⟨hname, hv⟩)
    have hdecisive : decisive? project named (Table.ofList overrides) name = some v := by
      have hverbosity : name ≠ Field.verbosity.key := by
        rintro rfl
        exact hunknown (Field.key_mem_keys _)
      rw [get?_merged project hnodup, get?_applyFlags, if_neg hverbosity] at hv
      exact hv
    refine ⟨v, hdecisive, fun text htext => ?_, fun fault hfault => ?_⟩
    · rw [hcombine, rejection, htext]
    · rw [hcombine, rejection, hfault]

end Files

/-! ### A project with a settings file, and a file that is named -/

/-- A settings file that holds nothing but settings. -/
def plainText : String := "entry_file = 'main.tsx'\npages_dir = 'views'\n"

/-- A settings file with a table of settings. -/
def headedText : String := "[ui-sweep]\npages_dir = 'routes'\nhooks_dir = 'lib'\n"

/-- A project with a settings file, and another settings file beside it. -/
def layered : FileSystem where
  tree := ⟨[.of ["ui-sweep.toml"] (.file (Text.Utf8.encode plainText.toList)),
    .of ["other.toml"] (.file (Text.Utf8.encode headedText.toList))]⟩
  cwd := []

/-- A table of texts is known by its texts. -/
theorem eq_of_texts {t : Table} (entries : List (String × String))
    (h : t.map (fun e => (e.1, e.2.text?)) = entries.map fun e => (e.1, some e.2)) :
    t = entries.map fun e => (e.1, .text e.2) := by
  induction t generalizing entries with
  | nil =>
    cases entries with
    | nil => rfl
    | cons e entries => cases h
  | cons e t ih =>
    cases entries with
    | nil => cases h
    | cons e' entries =>
      obtain ⟨hhead, htail⟩ := List.cons.inj h
      obtain ⟨k, v⟩ := e
      obtain ⟨hkey, hvalue⟩ := Prod.mk.inj hhead
      rw [List.map_cons, ← ih entries htail]
      cases v <;> cases hvalue
      rw [show k = e'.1 from hkey]

/-- A value against which nothing is said fits. -/
theorem fits_of_refusal {f : Field} {v : Value} (h : refusal f v = none) : Fits f v := by
  by_cases hf : f ∈ checkOrder
  · obtain ⟨α, x, hjudged, hx⟩ := refusal_eq f hf v
    exact hjudged.reason?_eq_none.mp (hx ▸ h)
  · cases f with
    | skipDirs => exact trivial
    | _ => exact absurd (by decide) hf

theorem projectHolds_layered : ProjectHolds layered (some ⟨.current, []⟩)
    [("entry_file", .text "main.tsx"), ("pages_dir", .text "views")] := by
  obtain ⟨t, ht, htexts⟩ : ∃ t, ofFile layered (Path.child ⟨.current, []⟩ fileName) = .ok t ∧
      t.map (fun e => (e.1, e.2.text?)) =
        [("entry_file", some "main.tsx"), ("pages_dir", some "views")] :=
    exists_ok_of_map (by decide +kernel)
  obtain rfl := eq_of_texts [("entry_file", "main.tsx"), ("pages_dir", "views")] htexts
  exact .present (holds_iff.mpr ht)

theorem namedHolds_layered : NamedHolds layered (some ⟨.current, ["other.toml"]⟩)
    [("pages_dir", .text "routes"), ("hooks_dir", .text "lib")] := by
  obtain ⟨t, ht, htexts⟩ : ∃ t, ofFile layered ⟨.current, ["other.toml"]⟩ = .ok t ∧
      t.map (fun e => (e.1, e.2.text?)) =
        [("pages_dir", some "routes"), ("hooks_dir", some "lib")] :=
    exists_ok_of_map (by decide +kernel)
  obtain rfl := eq_of_texts [("pages_dir", "routes"), ("hooks_dir", "lib")] htexts
  exact .present (holds_iff.mpr ht)

/-- Values of a caller, for a setting that a file gives as well, and with both flags. -/
def callerValues : List (String × Value) :=
  [("hooks_dir", .text "use"), ("source_extensions", .list [.text ".ts"]), ("verbose", .truth true),
    ("quiet", .truth false)]

/-- The caller decides over the named file, and this over the project; the flag is the verbosity.  A
name that no setting has is refused although a value does not fit. -/
theorem load_follows_layered :
    (∃ s, load layered (some ⟨.current, []⟩) (some ⟨.current, ["other.toml"]⟩) callerValues =
        .ok s ∧
      [Field.entryFile, .pagesDir, .hooksDir, .sourceExtensions, .verbosity].map
        (fun f => (s.value f).shown.toOption) =
          [some "'main.tsx'", some "'routes'", some "'use'", some "('.ts',)", some "'verbose'"]) ∧
    load layered (some ⟨.current, []⟩) (some ⟨.current, ["other.toml"]⟩)
      [("hooks_dir", .null), ("colour", .text "red"), ("quiet", .truth true)] =
        .error (.problem (.setting "colour" "'red'" "unknown setting")) := by
  constructor
  · obtain ⟨s, hs, hvalue⟩ := (load_follows projectHolds_layered namedHolds_layered
      callerValues).accepted (by decide) fun f => fits_of_refusal (by cases f <;> decide +kernel)
    refine ⟨s, hs, ?_⟩
    simp only [hvalue]
    decide +kernel
  · obtain ⟨v, hv, htold, -⟩ := (load_follows projectHolds_layered namedHolds_layered
      [("hooks_dir", .null), ("colour", .text "red"), ("quiet", .truth true)]).refused "colour"
      (by decide)
    obtain rfl : Value.text "red" = v := Option.some.inj hv
    exact htold "'red'" (eq_ok_of_toOption (by decide +kernel))

/-! ### A value that cannot be told -/

/-- **Not every unknown name is refused with a problem**: a number that has too many digits to be
written stops the refusal. -/
theorem not_refused_longNumeral :
    ¬ ∀ (fs : FileSystem) (root file : Option Path) (project named : Table)
      (overrides : List (String × Value)) (name : String),
      ProjectHolds fs root project → NamedHolds fs file named →
      ((mentioned project named (Table.ofList overrides)).find? fun n => n ∉ Field.keys) =
        some name →
      ∃ text, load fs root file overrides =
        .error (.problem (.setting name text "unknown setting")) := by
  intro hall
  have hfault : load layered none none [("colour", .integer (10 ^ 4300))] =
      .error (.fault .longNumeral) := eq_error_of_reason? (by decide +kernel)
  obtain ⟨text, htext⟩ := hall layered none none [] [] [("colour", .integer (10 ^ 4300))] "colour"
    .none .none (by decide)
  exact nomatch hfault.symm.trans htext

end Unimported.Settings
