import Unimported.Check.Entry
import Unimported.Proofs.Import.Designates
import Unimported.Proofs.Import.Leftmost
import Unimported.Proofs.Outcome

/-!
# Which of two copies is flagged

A file may stand both with the hooks and with the components.  The check goes by what the text of
the entry file *names*: the hooks copy behind the alias or behind a dot, then the components copy in
the same way.  An import that is written plainly names the module that it leads to, so a hooks copy
that is imported so is never flagged.  The converse fails.  A comment or a longer specifier names a
module as well as an import does, and a name of the hooks copy anywhere in the text is enough for
the components copy to be flagged, imported or not.

## Main definitions

* `Check.Names` — a text names a module of a directory.
* `Check.IsPlain` — a specifier leads to a module of a directory and is written plainly.
* `Scene.Settles` — both copies are there, and the entry file can be read.
* `Check.flaggedBy` — what a text of the entry file flags.

## Main results

* `Import.infix_of_mem_specifiers` — a specifier of a text stands in the text.
* `Check.names_of_isPlain` — a plain import names its module.
* `Check.duplicateSection_exact` — **which of two copies is flagged**, for every text of the entry
  file.
-/

namespace Unimported

namespace Import

/-- **A specifier of a text stands in the text.** -/
theorem infix_of_mem_specifiers {text specifier : String} (h : specifier ∈ specifiers text) :
    specifier.toList <:+: text.toList := by
  obtain ⟨os, hos, hall⟩ := specifiers_eq_reading text
  rw [hall os hos] at h
  obtain ⟨o, -, rfl⟩ := List.mem_map.mp h
  have hspan : o.span.specifier.toList <:+: o.span.text := by
    refine ⟨o.span.front ++ (o.span.origin.between.chars ++ fromWord ++ o.span.origin.after.chars ++
      [o.span.origin.source.quote]), [o.span.origin.source.quote], ?_⟩
    simp [Span.text, Span.specifier, Origin.text, Quoted.text]
  exact (hspan.trans o.stands.isInfix).trans (List.drop_suffix _ _).isInfix

end Import

namespace Check

open Outcome

/-- The path of a file below the source root. -/
def copyIn (dir file : String) : String := dir ++ "/" ++ file

/-- The module that a file is. -/
def moduleOf (file : String) : String := (Path.ofString file).stem

/-- A text names a module of a directory, behind the alias or behind a dot. -/
def Names (text dir module : String) : Prop :=
  ∃ t ∈ importTexts dir module, t.toList <:+: text.toList

instance (text dir module : String) : Decidable (Names text dir module) :=
  decidable_of_iff ((importTexts dir module).any (fun t => Text.occursIn t text) = true) (by
    simp [Names, Text.occursIn_iff])

/-- A specifier is written plainly and leads to a file of a directory, which it names with its suffix
or without: behind the alias, or behind a dot and just so. -/
def IsPlain (r : Resolver) (root : Path) (dir file specifier : String) : Prop :=
  ∃ m ∈ [moduleOf file, file],
    (Text.opens Resolver.aliasMark specifier = true ∧
      r.resolve specifier root = some (r.rootName ++ "/" ++ dir ++ "/" ++ m)) ∨
    specifier = "./" ++ dir ++ "/" ++ m

end Check

/-- Both copies are there, and this is the text of the entry file. -/
structure Scene.Settles (x : Scene) (text : String) : Prop where
  hooks : (x.hasFile (Check.copyIn x.settings.hooksDir x.settings.duplicateName)).outcome = .ok true
  components : (x.hasFile (Check.copyIn x.settings.uiDir x.settings.duplicateName)).outcome = .ok true
  entry : x.entryText.outcome = .ok (some text)

/-- There is one such text. -/
theorem Scene.Settles.unique {x : Scene} {text text' : String} (h : x.Settles text)
    (h' : x.Settles text') : text' = text :=
  Option.some.inj (Except.ok.inj (h'.entry.symm.trans h.entry))

namespace Check

open Outcome

variable {x : Scene} {sec : Section} {text dir file specifier : String}

/-! ### Plain imports -/

/-- A file is called by its module and its suffix. -/
theorem exists_suffix (h : Path.IsName file) : ∃ suffix, moduleOf file ++ suffix = file := by
  have hhead : file.toList.head? ≠ some '/' := fun hc => h.no_slash (List.mem_of_mem_head? hc)
  have hpath : Path.ofString file = ⟨.current, [file]⟩ := by
    refine Path.ofString_of_names hhead ?_
    rw [Path.pieces_of_not_mem h.no_slash]
    simp [h.isSegment]
  refine ⟨(Path.ofString file).suffix, ?_⟩
  have hname : (Path.ofString file).name = file := by rw [hpath]; rfl
  exact (Path.cutSuffix_append _).trans hname

/-- **A plain import names its module.** -/
theorem names_of_isPlain {r : Resolver} {root : Path} (hname : Path.IsName file)
    (hmem : specifier ∈ Import.specifiers text) (h : IsPlain r root dir file specifier) :
    Names text dir (moduleOf file) := by
  have hstands := Import.infix_of_mem_specifiers hmem
  obtain ⟨m, hm, h⟩ := h
  -- the suffix may be left out
  obtain ⟨rest, hrest⟩ : ∃ rest, m = moduleOf file ++ rest := by
    simp only [List.mem_cons, List.not_mem_nil, or_false] at hm
    rcases hm with rfl | rfl
    · exact ⟨"", by simp⟩
    · obtain ⟨suffix, hsuffix⟩ := exists_suffix hname
      exact ⟨suffix, hsuffix.symm⟩
  have hopens : ∀ front : String, specifier = front ++ dir ++ "/" ++ m →
      (front ++ dir ++ "/" ++ moduleOf file).toList <:+: text.toList := by
    rintro front rfl
    refine List.IsInfix.trans ?_ hstands
    refine List.IsPrefix.isInfix ⟨rest.toList, ?_⟩
    rw [hrest]
    simp
  rcases h with ⟨halias, hresolve⟩ | hdot
  · obtain ⟨tail, htail⟩ := Text.opens_iff.mp halias
    obtain rfl : specifier = Resolver.aliasMark ++ String.ofList tail := by
      rw [← String.toList_inj, ← htail]
      simp
    rw [Resolver.resolve_alias] at hresolve
    have heq : String.ofList tail = dir ++ "/" ++ m := by
      simpa [String.append_assoc] using Option.some.inj hresolve
    refine ⟨_, List.mem_cons_self, hopens Resolver.aliasMark ?_⟩
    rw [heq]
    simp only [String.append_assoc]
  · exact ⟨_, List.mem_cons_of_mem _ List.mem_cons_self, hopens "./" hdot⟩

/-! ### The verdict -/

/-- The files that a section flags. -/
def flagged (sec : Section) : List String := sec.candidates.map Candidate.file

theorem any_occursIn_iff {module : String} :
    ((importTexts dir module).any fun t => Text.occursIn t text) = true ↔
      Names text dir module := by
  simp [Names, Text.occursIn_iff]

/-- Without two copies and a text nothing is flagged. -/
theorem exists_settles_of_flagged (h : (duplicateSection x).outcome = .ok sec)
    (hmem : file ∈ flagged sec) : ∃ text, x.Settles text := by
  unfold duplicateSection at h
  obtain ⟨inHooks, hinHooks, h⟩ := traced_bind_eq_ok.mp h
  split at h
  · obtain rfl := traced_pure_eq_ok.mp h
    cases hmem
  · next hhooks =>
    obtain rfl : inHooks = true := by simpa using hhooks
    obtain ⟨inUi, hinUi, h⟩ := traced_bind_eq_ok.mp h
    split at h
    · obtain rfl := traced_pure_eq_ok.mp h
      cases hmem
    · next hui =>
      obtain rfl : inUi = true := by simpa using hui
      obtain ⟨entry, hentry, h⟩ := traced_bind_eq_ok.mp h
      cases entry with
      | none =>
        obtain rfl := traced_pure_eq_ok.mp h
        cases hmem
      | some text => exact ⟨text, hinHooks, hinUi, hentry⟩

/-- What a text of the entry file flags: it is asked for the hooks copy first. -/
def flaggedBy (s : Settings) (text : String) : List String :=
  if Names text s.hooksDir (moduleOf s.duplicateName) then [copyIn s.uiDir s.duplicateName]
  else if Names text s.uiDir (moduleOf s.duplicateName) then [copyIn s.hooksDir s.duplicateName]
  else []

theorem flagged_of_settles (hx : x.Settles text) (h : (duplicateSection x).outcome = .ok sec) :
    flagged sec = flaggedBy x.settings text := by
  unfold flaggedBy
  unfold duplicateSection at h
  obtain ⟨inHooks, hinHooks, h⟩ := traced_bind_eq_ok.mp h
  obtain rfl := Except.ok.inj (hinHooks.symm.trans hx.hooks)
  obtain ⟨inUi, hinUi, h⟩ := traced_bind_eq_ok.mp h
  obtain rfl := Except.ok.inj (hinUi.symm.trans hx.components)
  obtain ⟨entry, hentry, h⟩ := traced_bind_eq_ok.mp h
  obtain rfl := Except.ok.inj (hentry.symm.trans hx.entry)
  simp only [any_occursIn_iff] at h
  split at h
  · next hnames =>
    obtain rfl := traced_pure_eq_ok.mp h
    exact (if_pos hnames).symm
  · next hnot =>
    refine Eq.trans ?_ (if_neg hnot).symm
    split at h
    · next hnames =>
      obtain rfl := traced_pure_eq_ok.mp h
      exact (if_pos hnames).symm
    · next hneither =>
      obtain rfl := traced_pure_eq_ok.mp h
      exact (if_neg hneither).symm

/-- **What is flagged is what the text of the entry file flags**, if there are two copies. -/
theorem mem_flagged_iff (h : (duplicateSection x).outcome = .ok sec) :
    file ∈ flagged sec ↔ ∃ text, x.Settles text ∧ file ∈ flaggedBy x.settings text := by
  constructor
  · intro hmem
    obtain ⟨text, hsettles⟩ := exists_settles_of_flagged h hmem
    exact ⟨text, hsettles, flagged_of_settles hsettles h ▸ hmem⟩
  · rintro ⟨text, hsettles, hmem⟩
    exact (flagged_of_settles hsettles h).symm ▸ hmem

section FlaggedBy

variable {s : Settings}

/-- The copies stand under different paths. -/
theorem copyIn_ne (hne : s.hooksDir ≠ s.uiDir) (file : String) :
    copyIn s.hooksDir file ≠ copyIn s.uiDir file := by
  intro heq
  rw [copyIn, copyIn, String.append_assoc, String.append_assoc, String.append_left_inj] at heq
  exact hne heq

theorem components_mem_flaggedBy (hne : s.hooksDir ≠ s.uiDir) :
    copyIn s.uiDir s.duplicateName ∈ flaggedBy s text ↔
      Names text s.hooksDir (moduleOf s.duplicateName) := by
  have hcopies := copyIn_ne hne s.duplicateName
  unfold flaggedBy
  split
  · next hnames => exact ⟨fun _ => hnames, fun _ => List.mem_cons_self⟩
  · next hnot =>
    refine ⟨fun hmem => ?_, fun hnames => absurd hnames hnot⟩
    split at hmem
    · exact absurd (List.mem_singleton.mp hmem).symm hcopies
    · cases hmem

theorem hooks_mem_flaggedBy (hne : s.hooksDir ≠ s.uiDir) :
    copyIn s.hooksDir s.duplicateName ∈ flaggedBy s text ↔
      ¬ Names text s.hooksDir (moduleOf s.duplicateName) ∧
        Names text s.uiDir (moduleOf s.duplicateName) := by
  have hcopies := copyIn_ne hne s.duplicateName
  unfold flaggedBy
  split
  · next hnames =>
    exact ⟨fun hmem => absurd (List.mem_singleton.mp hmem) hcopies, fun h => absurd hnames h.1⟩
  · next hnot =>
    split
    · next hnames => exact ⟨fun _ => ⟨hnot, hnames⟩, fun _ => List.mem_cons_self⟩
    · next hneither =>
      refine ⟨fun hmem => ?_, fun h => absurd h.2 hneither⟩
      cases hmem

end FlaggedBy

/-- **Which of two copies is flagged.**  The components copy is, just when the text of the entry file
names the hooks copy; the hooks copy is, just when the text names the components copy and not the
hooks copy.  So a hooks copy that is imported plainly is never flagged. -/
theorem duplicateSection_exact (hne : x.settings.hooksDir ≠ x.settings.uiDir)
    (hname : Path.IsName x.settings.duplicateName) (h : (duplicateSection x).outcome = .ok sec) :
    let hooksDir := x.settings.hooksDir
    let uiDir := x.settings.uiDir
    let file := x.settings.duplicateName
    (copyIn uiDir file ∈ flagged sec ↔
      ∃ text, x.Settles text ∧ Names text hooksDir (moduleOf file)) ∧
    (copyIn hooksDir file ∈ flagged sec ↔
      ∃ text, x.Settles text ∧ ¬ Names text hooksDir (moduleOf file) ∧
        Names text uiDir (moduleOf file)) ∧
    ∀ text, x.Settles text → ∀ specifier ∈ Import.specifiers text,
      IsPlain (.ofRoot x.fs.cwd x.survey.root) x.survey.root hooksDir file specifier →
      copyIn hooksDir file ∉ flagged sec := by
  intro hooksDir uiDir file
  have hcomponents : copyIn uiDir file ∈ flagged sec ↔
      ∃ text, x.Settles text ∧ Names text hooksDir (moduleOf file) :=
    (mem_flagged_iff h).trans (exists_congr fun text =>
      and_congr_right fun _ => components_mem_flaggedBy hne)
  have hhooks : copyIn hooksDir file ∈ flagged sec ↔
      ∃ text, x.Settles text ∧ ¬ Names text hooksDir (moduleOf file) ∧
        Names text uiDir (moduleOf file) :=
    (mem_flagged_iff h).trans (exists_congr fun text =>
      and_congr_right fun _ => hooks_mem_flaggedBy hne)
  refine ⟨hcomponents, hhooks, fun text hsettles specifier hmem hplain hflagged => ?_⟩
  obtain ⟨text', hsettles', hnot, -⟩ := hhooks.mp hflagged
  exact hnot (hsettles.unique hsettles' ▸ names_of_isPlain hname hmem hplain)

/-! ### A name in a comment -/

/-- An application that imports the components copy and speaks of the hooks copy. -/
def toastText : String := "import { toast } from '@/components/ui/use-toast'\n// not ./hooks/use-toast\n"

/-- A project with both copies of a file. -/
def toasts : FileSystem where
  tree := ((Tree.insert ⟨[]⟩ ["src", "App.tsx"]
      (.file (Text.Utf8.encode toastText.toList))).insert
        ["src", "components", "ui", "use-toast.ts"] (.file [])).insert
        ["src", "hooks", "use-toast.ts"] (.file [])
  cwd := []

/-- What the checks look at in the project. -/
def toastScene : Scene where
  fs := toasts
  settings := .default
  survey :=
    ⟨⟨.root, ["src"]⟩,
      [⟨.root, ["src", "App.tsx"]⟩, ⟨.root, ["src", "components", "ui", "use-toast.ts"]⟩,
        ⟨.root, ["src", "hooks", "use-toast.ts"]⟩].map (SourceFile.ofPath .default ⟨.root, ["src"]⟩),
      .ofList ["src/components/ui/use-toast"]⟩

theorem settles_toastScene : toastScene.Settles toastText :=
  ⟨eq_ok_of_toOption (by decide +kernel), eq_ok_of_toOption (by decide +kernel),
    eq_ok_of_toOption (by decide +kernel)⟩

theorem specifiers_toastText : Import.specifiers toastText = ["@/components/ui/use-toast"] := by
  decide +kernel

theorem exists_flagged_toastScene : ∃ sec, (duplicateSection toastScene).outcome = .ok sec ∧
    flagged sec = ["components/ui/use-toast.ts"] :=
  exists_ok_of_map (by decide +kernel)

/-- The copy that is imported is flagged, because the text names the other one. -/
theorem duplicateSection_exact_toastScene :
    ∃ sec, (duplicateSection toastScene).outcome = .ok sec ∧
      copyIn "components/ui" "use-toast.ts" ∈ flagged sec ∧
      copyIn "hooks" "use-toast.ts" ∉ flagged sec := by
  obtain ⟨sec, hsec, -⟩ := exists_flagged_toastScene
  have hnames : Names toastText "hooks" (moduleOf "use-toast.ts") := by decide +kernel
  have hexact := duplicateSection_exact (x := toastScene) (by decide) (by decide +kernel) hsec
  refine ⟨sec, hsec, hexact.1.mpr ⟨toastText, settles_toastScene, hnames⟩, fun hmem => ?_⟩
  obtain ⟨text, hsettles, hnot, -⟩ := hexact.2.1.mp hmem
  exact hnot (settles_toastScene.unique hsettles ▸ hnames)

/-- The text of the entry file imports a file of a directory, with its suffix or without. -/
def Imports (x : Scene) (text dir file : String) : Prop :=
  ∃ specifier ∈ Import.specifiers text, ∃ m ∈ [moduleOf file, file],
    (Resolver.ofRoot x.fs.cwd x.survey.root).resolve specifier x.survey.root =
      some (x.survey.root.name ++ "/" ++ dir ++ "/" ++ m)

/-- **A copy that is imported may be flagged**: the other one need only be spoken of. -/
theorem not_kept_toastScene :
    ¬ ∀ (x : Scene) (sec : Section) (text : String), x.settings.WellTyped →
      Path.IsNormalText x.settings.hooksDir → Path.IsNormalText x.settings.uiDir →
      x.settings.hooksDir ≠ x.settings.uiDir → Path.IsName x.settings.entryFile →
      Path.IsName x.settings.duplicateName → (duplicateSection x).outcome = .ok sec →
      x.entryText.outcome = .ok (some text) →
      Imports x text x.settings.uiDir x.settings.duplicateName →
      ¬ Imports x text x.settings.hooksDir x.settings.duplicateName →
      copyIn x.settings.uiDir x.settings.duplicateName ∉ flagged sec := by
  intro hall
  obtain ⟨sec, hsec, hflagged⟩ := exists_flagged_toastScene
  have himports : Imports toastScene toastText "components/ui" "use-toast.ts" := by
    refine ⟨"@/components/ui/use-toast", ?_, "use-toast", by decide +kernel, by decide +kernel⟩
    rw [specifiers_toastText]
    exact List.mem_cons_self
  have hnot : ¬ Imports toastScene toastText "hooks" "use-toast.ts" := by
    rintro ⟨specifier, hmem, m, hm, hresolve⟩
    rw [specifiers_toastText, List.mem_singleton] at hmem
    subst hmem
    revert m
    decide +kernel
  refine hall toastScene sec toastText Settings.wellTyped_default (by decide +kernel)
    (by decide +kernel) (by decide) (by decide +kernel) (by decide +kernel) hsec
    settles_toastScene.entry himports hnot ?_
  rw [hflagged]
  exact List.mem_cons_self

end Check

end Unimported
