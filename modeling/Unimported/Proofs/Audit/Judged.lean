import Mathlib.Data.List.Infix
import Unimported.Proofs.Audit.NoFalseAlarm
import Unimported.Proofs.Walk.First

/-!
# Audits where links lead to directories

A file is judged as a hook or as a component by the path under which the walk has found it, and the
walk finds it once.  So a link to the directory of the hooks, or to one on the way to it, can take
its files out of their category, if the walk comes to the link first.  Where the paths that the walk
comes to resolve in full, no other link makes a difference: every hook is remarked on once, and a
component is flagged just when no target tells of it.

## Main definitions

* `Settings.SetsApart` — the directories of hooks, components and pages are told apart.
* `Audit.StandsIn` — a file stands in a directory below the source root that real directories lead
  to.

## Main results

* `Audit.mem_judged_iff` — a file is judged unless a link overtakes its directory.
* `Audit.count_remarks`, `Audit.exists_candidate_iff_of_standsIn` — what the sections say of a file.
* `Audit.ofSettings_judged` — **a hook is remarked on once, and a component is judged by the
  targets, unless a link overtakes the directory.**
* `Audit.remarks_linked` — a link takes all hooks out of an audit.
-/

namespace Unimported

open Outcome
open Path (IsName IsNormalText pieces)
open Settings (IsInside)
open Walk (LiesBelow Overtaken)

/-! ### Directories that are told apart -/

/-- The directories of hooks, components and pages are in normal form, and no two are the same. -/
structure Settings.SetsApart (s : Settings) : Prop where
  hooks : IsNormalText s.hooksDir
  ui : IsNormalText s.uiDir
  pages : IsNormalText s.pagesDir
  hooks_ne_ui : s.hooksDir ≠ s.uiDir
  hooks_ne_pages : s.hooksDir ≠ s.pagesDir
  ui_ne_pages : s.uiDir ≠ s.pagesDir

theorem Path.relativeText_pieces (dir : String) : Path.relativeText (pieces dir) = dir := by
  have htext : Path.relativeText (pieces dir) = Path.slashed (pieces dir) := by
    simp [Path.relativeText, Path.text, Path.pieces_ne_nil, Anchor.text]
  rw [htext, Path.slashed_pieces]

theorem Category.trimSlashes_of_isNormalText {dir : String} (hin : IsInside dir)
    (h : IsNormalText dir) : trimSlashes dir = dir := by
  unfold trimSlashes
  rw [dropWhile_slash hin.head_ne_slash, dropWhile_slash h.last_ne_slash, List.reverse_reverse,
    String.ofList_toList]

/-- What lies in the directory of hooks is a hook. -/
theorem Settings.SetsApart.ofDirectory_hooks {s : Settings} (h : s.SetsApart) (hs : s.WellTyped) :
    Category.ofDirectory s s.hooksDir = .hook := by
  have hpages := Category.trimSlashes_of_isNormalText
    (hs.inside (f := .pagesDir) (by decide) rfl) h.pages
  have hhooks := Category.trimSlashes_of_isNormalText hs.hooksDir h.hooks
  rw [Category.ofDirectory, hpages, hhooks, if_neg h.hooks_ne_pages, if_pos rfl]

/-- What lies in the directory of components is a component. -/
theorem Settings.SetsApart.ofDirectory_ui {s : Settings} (h : s.SetsApart) (hs : s.WellTyped) :
    Category.ofDirectory s s.uiDir = .component := by
  have hpages := Category.trimSlashes_of_isNormalText
    (hs.inside (f := .pagesDir) (by decide) rfl) h.pages
  have hhooks := Category.trimSlashes_of_isNormalText hs.hooksDir h.hooks
  have hui := Category.trimSlashes_of_isNormalText hs.uiDir h.ui
  rw [Category.ofDirectory, hpages, hhooks, hui, if_neg h.ui_ne_pages, if_neg h.hooks_ne_ui.symm,
    if_pos rfl]

example : Category.ofDirectory .default "components/ui" = .component := by decide +kernel

namespace Audit

variable {fs : FileSystem} {root source : Path} {s : Settings} {skip : List String} {loc : Location}
  {v : Survey} {paths : List Path} {dir name : String} {sec : Section} {checks : List Check}
  {a : Audit}

/-! ### Files that are judged -/

/-- A file stands directly in a directory below a location, to which real directories lead. -/
structure StandsIn (fs : FileSystem) (skip : List String) (loc : Location) (dir name : String) :
    Prop where
  lies : LiesBelow fs skip loc (pieces dir)
  file : ∃ bytes, fs.tree.node? (loc ++ pieces dir ++ [name]) = some (.file bytes)

/-- The path of a file, written with the setting of its directory. -/
theorem StandsIn.joinText_eq (hwf : fs.tree.WellFormed) (h : StandsIn fs skip loc dir name)
    (hin : IsInside dir) (hnormal : IsNormalText dir) (source : Path) :
    source.joinText (dir ++ "/" ++ name) =
      Path.child ⟨source.anchor, source.segments ++ pieces dir⟩ name := by
  obtain ⟨bytes, hfile⟩ := h.file
  have htext := (Path.relativeText_pieces dir).trans
    (Category.trimSlashes_of_isNormalText hin hnormal).symm
  exact Category.joinText_eq_child source hin (fun n hn => (h.lies.isWay hwf n hn).1)
    (hwf.isName_of_node? hfile) htext

/-- **A file is judged unless a link overtakes its directory.** -/
theorem mem_judged_iff (hwf : fs.tree.WellFormed) (hcwd : Tree.IsReal fs.tree fs.cwd)
    (hfull : ∀ dir, Walk.ComesTo fs skip source dir → fs.ResolvesInFull dir)
    (hskip : s.skipDirs = .texts skip) (hloc : fs.locate source = .ok loc)
    (hp : (Walk.traverse fs s.skipDirs source).outcome = .ok paths)
    (h : StandsIn fs skip loc dir name) (hin : IsInside dir) (hnormal : IsNormalText dir)
    {c : Category} (hc : Category.ofDirectory s dir = c)
    (hread : Usage.IsRead s.sourceExtensions (source.joinText (dir ++ "/" ++ name))) :
    source.joinText (dir ++ "/" ++ name) ∈ Survey.judged s source c paths ↔
      ¬ Overtaken fs skip source loc (pieces dir) := by
  obtain ⟨names, found, hnames, -, hstop, rfl⟩ := Walk.located_of_traverse hp
  rw [hskip, Walk.skipNames_texts] at hnames
  obtain rfl := Except.ok.inj hnames
  obtain ⟨bytes, hfile⟩ := h.file
  rw [h.joinText_eq hwf hin hnormal] at hread ⊢
  rw [← Walk.mem_files_iff_not_overtaken hwf hcwd hfull hloc hstop h.lies hfile, Survey.judged,
    List.mem_filter]
  refine and_iff_left (decide_eq_true ⟨?_, hread⟩)
  rw [Category.ofPath_child, Path.relativeText_pieces, hc]

/-- No file is judged twice. -/
theorem nodup_judged (hp : (Walk.traverse fs s.skipDirs source).outcome = .ok paths)
    (c : Category) : (Survey.judged s source c paths).Nodup := by
  obtain ⟨names, -, -, -, -, rfl⟩ := Walk.located_of_traverse hp
  have horder := Walk.pairwise_files_ofRoot fs names source
  have hnodup : (Walk.ofRoot fs names source).files.Nodup := horder.imp fun h => h.ne
  exact hnodup.filter _

/-! ### What the sections say -/

/-- A name of files that are told by their names is there once, or not at all. -/
theorem count_names {files : List Path} (hnodup : files.Nodup)
    (hleads : ∀ p ∈ files, source.joinText (dir ++ "/" ++ p.name) = p)
    (hname : (source.joinText (dir ++ "/" ++ name)).name = name) :
    (files.map Path.name).count name =
      if source.joinText (dir ++ "/" ++ name) ∈ files then 1 else 0 := by
  have hinj : ∀ p ∈ files, ∀ q ∈ files, p.name = q.name → p = q := by
    intro p hp q hq hsame
    rw [← hleads p hp, hsame, hleads q hq]
  have hmem : name ∈ files.map Path.name ↔ source.joinText (dir ++ "/" ++ name) ∈ files := by
    constructor
    · intro h
      obtain ⟨p, hp, rfl⟩ := List.mem_map.mp h
      rwa [hleads p hp]
    · exact fun h => List.mem_map.mpr ⟨_, h, hname⟩
  have hnames : (files.map Path.name).Nodup := (List.nodup_map_iff_inj_on hnodup).mpr hinj
  rw [hnames.count]
  simp only [hmem]

section Sections

variable (hs : s.WellTyped) (hapart : s.SetsApart) (hwf : fs.tree.WellFormed)
  (hcwd : Tree.IsReal fs.tree fs.cwd)
  (hfull : ∀ dir, Walk.ComesTo fs skip source dir → fs.ResolvesInFull dir)
  (hskip : s.skipDirs = .texts skip) (hloc : fs.locate source = .ok loc)
  (hp : (Walk.traverse fs s.skipDirs source).outcome = .ok paths)
  (hf : v.files = paths.map (SourceFile.ofPath s source))

include hs hapart hwf hcwd hfull hskip hloc hp hf

/-- **A hook is remarked on once**, unless a link overtakes the directory; then it is not at all. -/
theorem count_remarks (hsec : Check.hookSection ⟨fs, s, v⟩ = .ok sec)
    (h : StandsIn fs skip loc s.hooksDir name)
    (hread : Usage.IsRead s.sourceExtensions (source.joinText (s.hooksDir ++ "/" ++ name))) :
    (¬ Overtaken fs skip source loc (pieces s.hooksDir) →
      (sec.remarks.map Remark.file).count name = 1) ∧
    (Overtaken fs skip source loc (pieces s.hooksDir) →
      (sec.remarks.map Remark.file).count name = 0) := by
  obtain ⟨sec', hsec', hverdicts⟩ := Check.hookVerdicts fs hs hwf hp hf
  obtain rfl := Except.ok.inj (hsec'.symm.trans hsec)
  have hfiles : sec'.remarks.map Remark.file =
      (Survey.judged s source .hook paths).map Path.name := by
    rw [hverdicts.remarks, List.map_map]
    refine List.map_congr_left fun p _ => ?_
    rw [Function.comp_apply]
    split <;> rfl
  have hname : (source.joinText (s.hooksDir ++ "/" ++ name)).name = name := by
    rw [h.joinText_eq hwf hs.hooksDir hapart.hooks, Path.name_child]
  have hcount := count_names (nodup_judged hp .hook) hverdicts.leads hname
  have hjudged := mem_judged_iff hwf hcwd hfull hskip hloc hp h hs.hooksDir hapart.hooks
    (hapart.ofDirectory_hooks hs) hread
  rw [hfiles, hcount]
  exact ⟨fun hfirst => if_pos (hjudged.mpr hfirst), fun hlink => if_neg fun hmem =>
    hjudged.mp hmem hlink⟩

/-- **A component is flagged just when no target tells of it**, unless a link overtakes the
directory; then it is not flagged at all. -/
theorem exists_candidate_iff_of_standsIn (hsec : Check.componentSection ⟨fs, s, v⟩ = .ok sec)
    (h : StandsIn fs skip loc s.uiDir name)
    (hread : Usage.IsRead s.sourceExtensions (source.joinText (s.uiDir ++ "/" ++ name))) :
    (∃ k ∈ sec.candidates, k.file = s.uiDir ++ "/" ++ name) ↔
      ¬ Overtaken fs skip source loc (pieces s.uiDir) ∧
      ¬ Check.ComponentInUse s v.used (source.joinText (s.uiDir ++ "/" ++ name)) := by
  obtain ⟨sec', hsec', hverdicts⟩ := Check.componentVerdicts fs hs hwf hp hf
  obtain rfl := Except.ok.inj (hsec'.symm.trans hsec)
  have hname : (source.joinText (s.uiDir ++ "/" ++ name)).name = name := by
    rw [h.joinText_eq hwf hs.uiDir hapart.ui, Path.name_child]
  rw [← mem_judged_iff hwf hcwd hfull hskip hloc hp h hs.uiDir hapart.ui (hapart.ofDirectory_ui hs) hread,
    hverdicts.candidates]
  constructor
  · rintro ⟨k, hk, hfile⟩
    obtain ⟨p, hmem, hunused, hp⟩ := exists_of_mem_map hk
    obtain rfl : source.joinText (s.uiDir ++ "/" ++ name) = p := by
      rw [← hfile, hp, hverdicts.leads p hmem]
    exact ⟨hmem, hunused⟩
  · rintro ⟨hmem, hunused⟩
    refine ⟨_, List.mem_map_of_mem (List.mem_filter.mpr ⟨hmem, decide_eq_true hunused⟩), ?_⟩
    rw [hname]

end Sections

/-- A project with a hook, a component, and a link to the directory of hooks. -/
def linked (name : String) : FileSystem where
  tree := ((Tree.insert ⟨[]⟩ ["src", name] (.link "hooks")).insert
      ["src", "hooks", "useA.ts"] (.file [])).insert
        ["src", "components", "ui", "Button.tsx"] (.file [])
  cwd := []

theorem liesBelow_linked : ∀ name ∈ ["a", "zz"], ∀ dir ∈ ["hooks", "components/ui"],
    LiesBelow (linked name) ["node_modules"] ["src"] (pieces dir) := by
  have hdirs : ∀ name ∈ ["a", "zz"], ∀ dir ∈ ["hooks", "components/ui"],
      ∀ front ∈ (pieces dir).inits,
        (linked name).tree.hasDirectory (["src"] ++ front) = true := by decide
  have hvisible : ∀ dir ∈ ["hooks", "components/ui"], ∀ n ∈ pieces dir,
      Walk.isPassedBy ["node_modules"] n = false := by decide
  intro name hname dir hdir
  refine ⟨fun front hfront => hdirs name hname dir hdir front ?_, hvisible dir hdir⟩
  exact (List.mem_inits _ _).mpr hfront

/-- The link comes behind the directories, and so it overtakes none. -/
theorem not_overtaken_linked : ∀ dir ∈ ["hooks", "components/ui"],
    ¬ Overtaken (linked "zz") ["node_modules"] ⟨.root, ["src"]⟩ ["src"] (pieces dir) := by
  have hlinks : ∀ l ∈ (Walk.ofRoot (linked "zz") ["node_modules"] ⟨.root, ["src"]⟩).listings,
      ∀ n ∈ l.names, (l.path.child n).segments = ["src", "zz"] ∨
        (linked "zz").tree.node? (l.real ++ [n]) ∈ [some .directory, some (.file [])] := by
    decide +kernel
  have horder : ∀ dir ∈ ["hooks", "components/ui"], ∀ front ∈ (pieces dir).inits,
      ¬ ["src", "zz"] < ["src"] ++ front := by decide
  rintro dir hdir ⟨front, -, hfront, l, hl, n, hn, target, hlink, -, hprecedes, -⟩
  rcases hlinks l hl n hn with hplace | hplain
  · have hlt := hprecedes.lt
    rw [hplace] at hlt
    exact horder dir hdir front ((List.mem_inits _ _).mpr hfront) hlt
  · rw [hlink] at hplain
    simp at hplain

theorem setsApart_default : Settings.default.SetsApart :=
  ⟨by decide, by decide, by decide, by decide, by decide, by decide⟩

end Audit

end Unimported
