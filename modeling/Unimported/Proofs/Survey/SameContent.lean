import Unimported.Proofs.Import.Detour
import Unimported.Proofs.Survey.Made
import Unimported.Proofs.Walk.SameContent

/-!
# Surveys of the same content

Surveys of two source roots with the same content hold the same files.  The targets in use need not
be the same, because an import that leaves its source root names directories above it.  But what
they mention is the same, unless some import leaves the source root and a name above ends like the
directory of a module.

## Main definitions

* `Survey.Surveyed` — what a survey of a directory without links holds.
* `Survey.Imports`, `Survey.ImportsOutside` — imports of the files, and imports that leave the
  source root.

## Main results

* `Survey.exists_surveyed` — a directory can be surveyed if its walk is not stopped.
* `Survey.Surveyed.mentions_iff` — **surveys of the same content mention the same.**
-/

namespace Unimported

namespace Source

variable {fs fs₁ fs₂ : FileSystem} {p p₁ p₂ : Path} {text : String}

theorem read_eq_ok : read fs p = .ok text ↔ ∃ bytes, fs.read p = .ok bytes ∧ textOf bytes = text := by
  unfold read
  cases fs.read p with
  | ok bytes => simp
  | error e => simp

/-- The same bytes are read as the same text. -/
theorem read_congr (h : fs₁.read p₁ = fs₂.read p₂) :
    read fs₁ p₁ = .ok text ↔ read fs₂ p₂ = .ok text := by
  rw [read_eq_ok, read_eq_ok, h]

end Source

namespace Survey

open FileSystem (SameContent)
open Resolver (EndsAbove Leaves)
open Usage (Mentions PutsInUse)
open Walk (LeadBelow)

/-- A file below a source root imports something. -/
def Imports (fs : FileSystem) (s : Settings) (loc : Location) (way : List String)
    (specifier : String) : Prop :=
  Usage.IsRead s.sourceExtensions (.under loc way) ∧
    ∃ text, Source.read fs (.under loc way) = .ok text ∧ specifier ∈ Import.specifiers text

/-- Some file of the walk below a source root imports something outside of it. -/
def ImportsOutside (fs : FileSystem) (s : Settings) (source : Path) : Prop :=
  ∃ paths, (Walk.traverse fs s.skipDirs source).outcome = .ok paths ∧
    ∃ way specifier, .under source.segments way ∈ paths ∧
      Imports fs s source.segments way specifier ∧ Leaves source.name way.dropLast specifier

/-- What a survey of a directory without links holds, told by the ways to its files. -/
structure Surveyed (fs : FileSystem) (s : Settings) (loc : Location) (ways : List (List String))
    (v : Survey) : Prop where
  /-- The walk finds what lies at the ends of the ways. -/
  walked : (Walk.traverse fs s.skipDirs ⟨.root, loc⟩).outcome = .ok (ways.map (Path.under loc))
  root : v.root = ⟨.root, loc⟩
  files : v.files = ways.map fun way => SourceFile.ofPath s ⟨.root, loc⟩ (.under loc way)
  /-- Just the files that are read put targets in use. -/
  used : ∀ target, target ∈ v.used ↔ ∃ way ∈ ways,
    PutsInUse fs (.ofRoot fs.cwd ⟨.root, loc⟩) s.sourceExtensions (.under loc way) target

variable {fs fs₁ fs₂ : FileSystem} {s : Settings} {skip : List String} {loc loc₁ loc₂ : Location}
  {ways : List (List String)} {v v₁ v₂ : Survey}

/-- **A directory can be surveyed** if its walk is not stopped. -/
theorem exists_surveyed (hskip : s.skipDirs = .texts skip)
    (hstop : (Walk.ofRoot fs skip ⟨.root, loc⟩).stopped = none)
    (hfiles : (Walk.ofRoot fs skip ⟨.root, loc⟩).files = ways.map (Path.under loc))
    (hways : ∀ way ∈ ways, fs.locate (.under loc way) = .ok (loc ++ way)) :
    ∃ v, (make fs ⟨.root, loc⟩ s).outcome = .ok v ∧ Surveyed fs s loc ways v := by
  have hwalked : (Walk.traverse fs s.skipDirs ⟨.root, loc⟩).outcome =
      .ok (ways.map (Path.under loc)) := by
    rw [hskip, Walk.outcome_traverse, hstop, ← hfiles]
  have hread : ∀ p ∈ ways.map (Path.under loc), Usage.CanBeAsked fs s.sourceExtensions p := by
    intro p hp _
    obtain ⟨way, hway, rfl⟩ := List.mem_map.mp hp
    exact Source.exists_specifiers (hways way hway)
  obtain ⟨used, hused⟩ := Usage.exists_gather (r := .ofRoot fs.cwd ⟨.root, loc⟩) hread
  refine ⟨_, outcome_make hwalked hused, hwalked, rfl, ?_, fun target => ?_⟩
  · rw [List.map_map]
    rfl
  · rw [Usage.mem_of_gather hused]
    constructor
    · rintro ⟨p, hp, htarget⟩
      obtain ⟨way, hway, rfl⟩ := List.mem_map.mp hp
      exact ⟨way, hway, htarget⟩
    · rintro ⟨way, hway, htarget⟩
      exact ⟨_, List.mem_map_of_mem hway, htarget⟩

/-! ### Imports -/

/-- The files import the same. -/
theorem Imports.of_sameContent (h : SameContent fs₁ fs₂ loc₁ loc₂) {way : List String}
    (hne : way ≠ []) (h₁ : fs₁.locate (.under loc₁ way) = .ok (loc₁ ++ way))
    (h₂ : fs₂.locate (.under loc₂ way) = .ok (loc₂ ++ way)) {specifier : String}
    (himports : Imports fs₁ s loc₁ way specifier) : Imports fs₂ s loc₂ way specifier := by
  obtain ⟨hread, text, htext, hspec⟩ := himports
  refine ⟨?_, text, (Source.read_congr (h.read h₁ h₂)).mp htext, hspec⟩
  unfold Usage.IsRead at hread ⊢
  rwa [Path.name_under loc₂ hne, ← Path.name_under loc₁ hne]

/-- An import that leaves the source root does so elsewhere. -/
theorem Surveyed.importsOutside (h : SameContent fs₁ fs₂ loc₁ loc₂)
    (hways : LeadBelow fs₁ fs₂ loc₁ loc₂ ways)
    (hv₁ : Surveyed fs₁ s loc₁ ways v₁) (hv₂ : Surveyed fs₂ s loc₂ ways v₂)
    (hname : Path.name ⟨.root, loc₁⟩ = Path.name ⟨.root, loc₂⟩)
    (hout : ImportsOutside fs₁ s ⟨.root, loc₁⟩) : ImportsOutside fs₂ s ⟨.root, loc₂⟩ := by
  obtain ⟨paths, hpaths, way, specifier, hmem, himports, hleaves⟩ := hout
  obtain rfl := Except.ok.inj (hpaths.symm.trans hv₁.walked)
  obtain ⟨way', hway, heq⟩ := List.mem_map.mp hmem
  obtain rfl : way' = way := List.append_cancel_left (congrArg Path.segments heq)
  obtain ⟨hne, h₁, h₂⟩ := hways way' hway
  exact ⟨_, hv₂.walked, way', specifier, List.mem_map_of_mem hway,
    himports.of_sameContent h hne h₁ h₂, hname ▸ hleaves⟩

/-! ### Mentions -/

section Mentions

variable {base₁ base₂ : Location} {name mark : String}

theorem name_concat (base : Location) (name : String) : Path.name ⟨.root, base ++ [name]⟩ = name := by
  simp [Path.name]

/-- The directory of a file below a source root. -/
theorem parent_under {base way : List String} (hne : way ≠ []) :
    (Path.under (base ++ [name]) way).parent = .under base (name :: way.dropLast) := by
  rw [Path.parent, Path.under, Path.under, List.dropLast_append_of_ne_nil hne]
  simp

/-- What a survey mentions is mentioned elsewhere, if the directories above have nothing to do with
it. -/
theorem Surveyed.mentions (h : SameContent fs₁ fs₂ (base₁ ++ [name]) (base₂ ++ [name]))
    (hways : LeadBelow fs₁ fs₂ (base₁ ++ [name]) (base₂ ++ [name]) ways)
    (hv₁ : Surveyed fs₁ s (base₁ ++ [name]) ways v₁) (hv₂ : Surveyed fs₂ s (base₂ ++ [name]) ways v₂)
    (hplain : '\\' ∉ name.toList) (hne : mark ≠ "") (hmark : '/' ∉ mark.toList)
    (hclean : ImportsOutside fs₁ s ⟨.root, base₁ ++ [name]⟩ →
      ¬ EndsAbove mark base₁ ∧ ¬ EndsAbove mark base₂) {stem : String}
    (hm : Mentions v₁.used (mark ++ "/" ++ stem)) : Mentions v₂.used (mark ++ "/" ++ stem) := by
  obtain ⟨target, htarget, hin⟩ := hm
  obtain ⟨way, hway, hread, text, htext, specifier, hspec, hresolve⟩ := (hv₁.used target).mp htarget
  obtain ⟨hnil, h₁, h₂⟩ := hways way hway
  have himports : Imports fs₁ s (base₁ ++ [name]) way specifier := ⟨hread, text, htext, hspec⟩
  have hnames₁ := h.left.real.isName
  have hnames₂ := h.right.real.isName
  rw [parent_under hnil] at hresolve
  -- the same import elsewhere has a target that mentions the module as well
  obtain ⟨target₂, hresolve₂, hin₂⟩ := Resolver.exists_mention fs₂.cwd hne hmark
    (fun hd => (hnames₁ _ (List.mem_append_left _ hd)).ne_dots rfl)
    (fun hd => (hnames₂ _ (List.mem_append_left _ hd)).ne_dots rfl)
    (hnames₁ name (by simp)).ne_dots hplain
    (fun hleaves => hclean ⟨_, hv₁.walked, way, specifier, List.mem_map_of_mem hway, himports,
      by rwa [name_concat]⟩) hin hresolve
  obtain ⟨hread₂, text₂, htext₂, hspec₂⟩ := himports.of_sameContent h hnil h₁ h₂
  rw [← parent_under hnil] at hresolve₂
  exact ⟨target₂, (hv₂.used target₂).mpr
    ⟨way, hway, hread₂, text₂, htext₂, specifier, hspec₂, hresolve₂⟩, hin₂⟩

/-- **Surveys of the same content mention the same**, unless an import leaves the source root and a
name above ends in the mark. -/
theorem Surveyed.mentions_iff (h : SameContent fs₁ fs₂ (base₁ ++ [name]) (base₂ ++ [name]))
    (hways : LeadBelow fs₁ fs₂ (base₁ ++ [name]) (base₂ ++ [name]) ways)
    (hv₁ : Surveyed fs₁ s (base₁ ++ [name]) ways v₁) (hv₂ : Surveyed fs₂ s (base₂ ++ [name]) ways v₂)
    (hplain : '\\' ∉ name.toList) (hne : mark ≠ "") (hmark : '/' ∉ mark.toList)
    (hclean : ImportsOutside fs₁ s ⟨.root, base₁ ++ [name]⟩ →
      ¬ EndsAbove mark base₁ ∧ ¬ EndsAbove mark base₂) (stem : String) :
    Mentions v₁.used (mark ++ "/" ++ stem) ↔ Mentions v₂.used (mark ++ "/" ++ stem) := by
  have hclean' : ImportsOutside fs₂ s ⟨.root, base₂ ++ [name]⟩ →
      ¬ EndsAbove mark base₂ ∧ ¬ EndsAbove mark base₁ := by
    intro hout
    have hout₁ := hv₂.importsOutside h.symm hways.symm hv₁
      (by rw [name_concat, name_concat]) hout
    exact ⟨(hclean hout₁).2, (hclean hout₁).1⟩
  exact ⟨hv₁.mentions h hways hv₂ hplain hne hmark hclean,
    hv₂.mentions h.symm hways.symm hv₁ hplain hne hmark hclean'⟩

end Mentions

end Survey

end Unimported
