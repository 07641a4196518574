import Unimported.Proofs.Audit.Denied
import Unimported.Proofs.Check.Verdicts
import Unimported.Proofs.Survey.SameContent

/-!
# Audits of the same content

Where a project lies is no matter to its audit, as long as its imports stay below the source root:
every check sees the same, and the sections are the same.  An import that leaves the source root has
a target that is told from the root of the machine, so the names of the directories above the
project come into it.  They make a difference only where one of them ends like the directory of the
hooks or the components, and then they can: an unused hook counts as used in a project that lies in
a directory called like that of its hooks.  A directory that is denied stops the audits in both
places.

## Main definitions

* `Settings.AsksBelow` — the checks ask about paths that lead straight down.

## Main results

* `Audit.alike_of_sameContent` — the checks see the same.
* `Audit.ofSettings_sameContent` — **the sections do not depend on where the project lies.**
* `Audit.sections_ne_hooks` — they do if an import leaves the source root.
-/

namespace Unimported

open FileSystem (SameContent)
open Outcome
open Path (IsName IsNormalText)
open Resolver (EndsAbove)
open Survey (ImportsOutside Surveyed)
open Usage (Mentions)
open Walk (LeadBelow)

/-- The names that the checks ask about lead straight down from the source root. -/
def Settings.AsksBelow (s : Settings) : Prop :=
  ∀ name ∈ s.asked, (Path.ofString name).anchor = .current ∧
    ∀ n ∈ (Path.ofString name).segments, IsName n

instance (s : Settings) : Decidable s.AsksBelow :=
  inferInstanceAs (Decidable (∀ name ∈ s.asked, _ ∧ _))

/-- The category of a file is told by the way to it. -/
theorem Category.ofPath_under (s : Settings) (loc : Location) {way : List String} (hne : way ≠ []) :
    Category.ofPath s ⟨.root, loc⟩ (.under loc way) =
      .ofDirectory s (Path.relativeText way.dropLast) := by
  obtain ⟨init, n, rfl⟩ := (List.eq_nil_or_concat way).resolve_left hne
  rw [List.concat_eq_append, List.dropLast_concat, ← ofPath_child s ⟨.root, loc⟩ init n, Path.child,
    Path.under, List.append_assoc]

namespace Audit

section Scenes

variable {fs₁ fs₂ : FileSystem} {loc₁ loc₂ : Location} {s : Settings} {ways : List (List String)}
  {v₁ v₂ : Survey}

/-- A name that leads straight down is the path of a way. -/
theorem joinText_of_asksBelow (hasks : s.AsksBelow) {name : String} (h : name ∈ s.asked)
    (loc : Location) :
    Path.joinText ⟨.root, loc⟩ name = .under loc (Path.ofString name).segments := by
  have hread : Path.ofString name = ⟨.current, (Path.ofString name).segments⟩ := by
    rw [← (hasks name h).1]
  rw [Path.joinText, hread, Path.join_current]
  rfl

variable (h : SameContent fs₁ fs₂ loc₁ loc₂) (hv₁ : Surveyed fs₁ s loc₁ ways v₁)
  (hv₂ : Surveyed fs₂ s loc₂ ways v₂) (hasks : s.AsksBelow)
  (hfits₁ : Scene.Fits ⟨fs₁, s, v₁⟩) (hfits₂ : Scene.Fits ⟨fs₂, s, v₂⟩)

include h hv₁ hv₂ hasks hfits₂

/-- Where something stands under a name that the checks ask about, it is found in both places. -/
theorem located_of_asked {name : String} (hname : name ∈ s.asked) {real : Location}
    (hloc : fs₁.locate (Scene.path ⟨fs₁, s, v₁⟩ name) = .ok real) :
    ∃ way, Scene.path ⟨fs₁, s, v₁⟩ name = .under loc₁ way ∧
      Scene.path ⟨fs₂, s, v₂⟩ name = .under loc₂ way ∧
      fs₁.locate (.under loc₁ way) = .ok (loc₁ ++ way) ∧
      fs₂.locate (.under loc₂ way) = .ok (loc₂ ++ way) := by
  have hpath₁ : Scene.path ⟨fs₁, s, v₁⟩ name = .under loc₁ (Path.ofString name).segments := by
    rw [Scene.path, hv₁.root, joinText_of_asksBelow hasks hname]
  have hpath₂ : Scene.path ⟨fs₂, s, v₂⟩ name = .under loc₂ (Path.ofString name).segments := by
    rw [Scene.path, hv₂.root, joinText_of_asksBelow hasks hname]
  have hshort := hfits₂ name hname
  simp only [hpath₂] at hshort
  rw [hpath₁] at hloc
  obtain ⟨rfl, hfound⟩ := h.locate (hasks name hname).2 hloc hshort
  exact ⟨_, hpath₁, hpath₂, hloc, hfound⟩

include hfits₁

/-- What stands under a name that the checks ask about. -/
theorem node?_of_asked {name : String} (hname : name ∈ s.asked) :
    fs₁.node? (Scene.path ⟨fs₁, s, v₁⟩ name) = fs₂.node? (Scene.path ⟨fs₂, s, v₂⟩ name) := by
  have hshort₁ := hfits₁ name hname
  have hshort₂ := hfits₂ name hname
  simp only [Scene.path, hv₁.root, hv₂.root, joinText_of_asksBelow hasks hname] at hshort₁ hshort₂ ⊢
  exact h.node? (hasks name hname).2 hshort₁ hshort₂

theorem hasFile_of_asked {name : String} (hname : name ∈ s.asked) :
    (Scene.hasFile ⟨fs₁, s, v₁⟩ name).outcome = (Scene.hasFile ⟨fs₂, s, v₂⟩ name).outcome := by
  unfold Scene.hasFile FileSystem.isFile
  rw [node?_of_asked h hv₁ hv₂ hasks hfits₁ hfits₂ hname]

/-- The entry file says the same. -/
theorem entryText_of_sameContent :
    (Scene.entryText ⟨fs₁, s, v₁⟩).outcome = (Scene.entryText ⟨fs₂, s, v₂⟩).outcome := by
  have hentry : s.entryFile ∈ s.asked := List.mem_cons_self
  have hsame := hasFile_of_asked h hv₁ hv₂ hasks hfits₁ hfits₂ hentry
  unfold Scene.entryText
  refine traced_bind_congr hsame fun present hpresent => ?_
  cases present with
  | false => rfl
  | true =>
    obtain ⟨bytes, hread₂⟩ := Scene.read_of_hasFile hpresent
    obtain ⟨real, -, hloc, -⟩ :=
      FileSystem.isFile_eq_true.mp (ofFault_eq_ok.mp (hsame.trans hpresent))
    obtain ⟨way, hpath₁, hpath₂, h₁, h₂⟩ :=
      located_of_asked h hv₁ hv₂ hasks hfits₂ hentry hloc
    have hread₁ : fs₁.read (Scene.path ⟨fs₁, s, v₁⟩ s.entryFile) =
        fs₂.read (Scene.path ⟨fs₂, s, v₂⟩ s.entryFile) := by
      rw [hpath₁, h.read h₁ h₂, ← hpath₂]
    -- a text that may not be read is none
    simp only [Source.read, hread₁]
    by_cases hdenied : fs₂.isDenied (Scene.path ⟨fs₂, s, v₂⟩ s.entryFile) = true
    · rw [show fs₂.read _ = .error .denied from hread₂.trans (if_pos hdenied)]
      rfl
    · rw [show fs₂.read _ = .ok bytes from hread₂.trans (if_neg hdenied)]

/-- The same assets are counted, or their directory is denied in both places. -/
theorem assetSection_of_sameContent :
    (∃ sec, Check.assetSection ⟨fs₁, s, v₁⟩ = .ok sec ∧
      Check.assetSection ⟨fs₂, s, v₂⟩ = .ok sec) ∨
    ∃ way, (∀ n ∈ way, IsName n) ∧ fs₁.isDenied (.under loc₁ way) = true ∧
      Check.assetSection ⟨fs₁, s, v₁⟩ = .error (Walk.unlistable (.under loc₁ way) .denied) ∧
      Check.assetSection ⟨fs₂, s, v₂⟩ = .error (Walk.unlistable (.under loc₂ way) .denied) := by
  have hassets : s.assetsDir ∈ s.asked := by simp [Settings.asked]
  have hnode := node?_of_asked h hv₁ hv₂ hasks hfits₁ hfits₂ hassets
  have hsame : fs₁.isDirectory (Scene.path ⟨fs₁, s, v₁⟩ s.assetsDir) =
      fs₂.isDirectory (Scene.path ⟨fs₂, s, v₂⟩ s.assetsDir) := by
    unfold FileSystem.isDirectory
    rw [hnode]
  obtain ⟨b, hd₁⟩ := FileSystem.exists_isDirectory (hfits₁ s.assetsDir hassets)
  have hd₂ := hsame.symm.trans hd₁
  cases b with
  | false =>
    exact Or.inl ⟨_, Check.assetSection_absent (x := ⟨fs₁, s, v₁⟩) hd₁,
      Check.assetSection_absent (x := ⟨fs₂, s, v₂⟩) hd₂⟩
  | true =>
    obtain ⟨real, hloc, hreal⟩ := FileSystem.isDirectory_eq_true.mp hd₁
    obtain ⟨way, hpath₁, hpath₂, h₁, h₂⟩ :=
      located_of_asked h hv₁ hv₂ hasks hfits₂ hassets hloc
    rw [hpath₁, h₁] at hloc
    obtain rfl := Except.ok.inj hloc
    have hway := h.left.isName_of_locate h₁
    cases hdenied : fs₁.isDenied (.under loc₁ way) with
    | true =>
      have hl₁ : fs₁.list (.under loc₁ way) = .error .denied := if_pos hdenied
      have hl₂ : fs₂.list (.under loc₂ way) = .error .denied :=
        if_pos ((h.denied way hway).symm.trans hdenied)
      have hsec₁ := Check.assetSection_unlistable (x := ⟨fs₁, s, v₁⟩) hd₁ (by rw [hpath₁, hl₁])
      have hsec₂ := Check.assetSection_unlistable (x := ⟨fs₂, s, v₂⟩) hd₂ (by rw [hpath₂, hl₂])
      rw [hpath₁] at hsec₁
      rw [hpath₂] at hsec₂
      exact Or.inr ⟨way, hway, hdenied, hsec₁, hsec₂⟩
    | false =>
      have hl₁ := FileSystem.list_of_locate hdenied h₁ hreal
      have hl₂ := FileSystem.list_of_locate ((h.denied way hway).symm.trans hdenied) h₂
        ((h.hasDirectory way).symm.trans hreal)
      rw [← hpath₁, h.names way] at hl₁
      rw [← hpath₂] at hl₂
      have hsec₁ := Check.assetSection_listed (x := ⟨fs₁, s, v₁⟩) hd₁ hl₁
      have hsec₂ := Check.assetSection_listed (x := ⟨fs₂, s, v₂⟩) hd₂ hl₂
      exact Or.inl ⟨_, hsec₁, hsec₂⟩

/-- **The checks see the same**, if the surveys mention the same hooks and components. -/
theorem alike_of_sameContent (hways : LeadBelow fs₁ fs₂ loc₁ loc₂ ways) (hui : IsNormalText s.uiDir)
    (hhooks : ∀ stem, Mentions v₁.used (s.hooksDir ++ "/" ++ stem) ↔
      Mentions v₂.used (s.hooksDir ++ "/" ++ stem))
    (hcomponents : ∀ stem, Mentions v₁.used (s.uiLeaf ++ "/" ++ stem) ↔
      Mentions v₂.used (s.uiLeaf ++ "/" ++ stem)) :
    Scene.Alike ⟨fs₁, s, v₁⟩ ⟨fs₂, s, v₂⟩ where
  settings := rfl
  files := by
    rw [hv₁.files, hv₂.files, List.map_map, List.map_map]
    refine List.map_congr_left fun way hway => ?_
    have hne := (hways way hway).1
    refine Prod.ext ?_ ?_
    · exact (Path.name_under loc₁ hne).trans (Path.name_under loc₂ hne).symm
    · exact (Category.ofPath_under s loc₁ hne).trans (Category.ofPath_under s loc₂ hne).symm
  hasFile := fun _ hname => hasFile_of_asked h hv₁ hv₂ hasks hfits₁ hfits₂ hname
  entryText := entryText_of_sameContent h hv₁ hv₂ hasks hfits₁ hfits₂
  hooks := fun f _ => by
    rw [Bool.eq_iff_iff, Check.hookNeedles, Usage.containsAny_singleton,
      Usage.containsAny_singleton]
    exact hhooks f.stem
  components := fun f _ => by
    have hneedles : ∀ used, Usage.containsAny used (Check.componentNeedles s f) = true ↔
        Mentions used (s.uiLeaf ++ "/" ++ f.stem) := fun used =>
      Usage.containsAny_pair.trans (Check.componentInUse_iff hui used f.path)
    rw [Bool.eq_iff_iff]
    exact (hneedles _).trans ((hcomponents f.stem).trans (hneedles _).symm)

end Scenes

/-! ### Audits -/

section Audits

variable {fs₁ fs₂ : FileSystem} {base₁ base₂ : Location} {name : String} {s : Settings}
  {skip : List String}

/-- **Audits of source roots with the same content give the same sections**, unless an import leaves
the source root and a directory above is called like that of the hooks or the components.  If they do
not end, the same directory has stopped both. -/
theorem ofSource_sameContent (hs : s.WellTyped) (hasks : s.AsksBelow) (hui : IsNormalText s.uiDir)
    (hmarks : ∀ mark ∈ [s.hooksDir, s.uiLeaf], mark ≠ "" ∧ '/' ∉ mark.toList)
    (hskip : s.skipDirs = .texts skip) (hname : '\\' ∉ name.toList)
    (h : SameContent fs₁ fs₂ (base₁ ++ [name]) (base₂ ++ [name]))
    (hd₁ : fs₁.isDirectory ⟨.root, base₁ ++ [name]⟩ = .ok true)
    (hd₂ : fs₂.isDirectory ⟨.root, base₂ ++ [name]⟩ = .ok true)
    (hfits₁ : Fits fs₁ s skip ⟨.root, base₁ ++ [name]⟩)
    (hfits₂ : Fits fs₂ s skip ⟨.root, base₂ ++ [name]⟩)
    (hclean : ImportsOutside fs₁ s ⟨.root, base₁ ++ [name]⟩ →
      ∀ mark ∈ [s.hooksDir, s.uiLeaf], ¬ EndsAbove mark base₁ ∧ ¬ EndsAbove mark base₂) :
    (∃ a₁ a₂, (ofSource fs₁ ⟨.root, base₁ ++ [name]⟩ s Check.all).outcome = .ok a₁ ∧
      (ofSource fs₂ ⟨.root, base₂ ++ [name]⟩ s Check.all).outcome = .ok a₂ ∧
      a₁.sections = a₂.sections) ∨
    ∃ way, (∀ n ∈ way, IsName n) ∧ fs₁.isDenied (.under (base₁ ++ [name]) way) = true ∧
      (ofSource fs₁ ⟨.root, base₁ ++ [name]⟩ s Check.all).outcome =
        .error (Walk.unlistable (.under (base₁ ++ [name]) way) .denied) ∧
      (ofSource fs₂ ⟨.root, base₂ ++ [name]⟩ s Check.all).outcome =
        .error (Walk.unlistable (.under (base₂ ++ [name]) way) .denied) := by
  obtain ⟨suffixes, hx⟩ := hs.sourceExtensions
  rcases Walk.ofRoot_sameContent h hd₁ hd₂ hfits₁.entries hfits₂.entries with
    ⟨ways, hways, hstop₁, hstop₂, hfiles₁, hfiles₂⟩ | ⟨way, hway, hdenied, hstop₁, hstop₂⟩
  · obtain ⟨v₁, hmake₁, hv₁⟩ := Survey.exists_surveyed hskip hstop₁ hfiles₁
      fun way hway => (hways way hway).2.1
    obtain ⟨v₂, hmake₂, hv₂⟩ := Survey.exists_surveyed hskip hstop₂ hfiles₂
      fun way hway => (hways way hway).2.2
    -- both surveys mention the same hooks and components
    have hmentions : ∀ mark ∈ [s.hooksDir, s.uiLeaf], ∀ stem,
        Mentions v₁.used (mark ++ "/" ++ stem) ↔ Mentions v₂.used (mark ++ "/" ++ stem) :=
      fun mark hmark => hv₁.mentions_iff h hways hv₂ hname (hmarks mark hmark).1
        (hmarks mark hmark).2 fun hout => hclean hout mark hmark
    have hscene₁ := hfits₁.scene hv₁.root
    have hscene₂ := hfits₂.scene hv₂.root
    have halike := alike_of_sameContent h hv₁ hv₂ hasks hscene₁ hscene₂ hways hui
      (hmentions s.hooksDir (by simp)) (hmentions s.uiLeaf (by simp))
    rw [outcome_ofSource hx hmake₁, outcome_ofSource hx hmake₂]
    rcases assetSection_of_sameContent h hv₁ hv₂ hasks hscene₁ hscene₂ with
      ⟨sec, hsec₁, hsec₂⟩ | ⟨way, hway, hdenied, hsec₁, hsec₂⟩
    · obtain ⟨sections, hsections⟩ :=
        exists_runChecks_all hscene₂ ⟨suffixes, hx⟩ hs.pageExtensions hsec₂
      rw [runChecks_all_congr halike (hsec₁.trans hsec₂.symm), hsections]
      exact Or.inl ⟨_, _, rfl, rfl, rfl⟩
    · refine Or.inr ⟨way, hway, hdenied, ?_, ?_⟩
      · rw [runChecks_all_eq_error (x := ⟨fs₁, s, v₁⟩) hscene₁ ⟨suffixes, hx⟩ hs.pageExtensions hsec₁]
        rfl
      · rw [runChecks_all_eq_error (x := ⟨fs₂, s, v₂⟩) hscene₂ ⟨suffixes, hx⟩ hs.pageExtensions hsec₂]
        rfl
  · -- the walk is stopped
    exact Or.inr ⟨way, hway, hdenied,
      ofSource_of_stopped hskip hstop₁ Check.all, ofSource_of_stopped hskip hstop₂ Check.all⟩

end Audits

/-! ### One project in two places -/

/-- The text of an application file whose import leaves the source root. -/
def outwardText : String := "import x from '../useB'\n"

/-- A machine with the same project in two directories below the root. -/
def checkouts (first second : String) : FileSystem where
  tree := [first, second].foldl (fun t name =>
    (t.insert [name, "src", "App.tsx"]
      (.file (Text.Utf8.encode outwardText.toList))).insert
        [name, "src", "hooks", "useB.ts"] (.file [])) ⟨[]⟩
  cwd := []

section Checkouts

variable {first second : String}

/-- The directories have the same content, if there is no name in the way. -/
theorem sameContent_checkouts (hwf : (checkouts first second).tree.WellFormed)
    (hlinks : (checkouts first second).tree.Linkless)
    (hdirs : ∀ name ∈ [first, second],
      (checkouts first second).tree.node? [name] = some .directory ∧ IsName name)
    (hbranch : (checkouts first second).tree.branch [first] =
      (checkouts first second).tree.branch [second]) :
    SameContent (checkouts first second) (checkouts first second) [first] [second] := by
  have hplain : ∀ name ∈ [first, second], (checkouts first second).LiesPlain [name] :=
    fun name hname =>
      { wellFormed := hwf
        real := .entry .root rfl (hdirs name hname).2 (hdirs name hname).1 (by simp)
        linkless := hlinks.below [name] }
  exact .of_branch (hplain first (by simp)) (hplain second (by simp)) (by simp) (by simp) hbranch
    fun _ _ => rfl

end Checkouts

end Audit

end Unimported
