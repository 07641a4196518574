import Unimported.Proofs.Audit.Denied
import Unimported.Proofs.Walk.Linkless

/-!
# Audits of machines that look the same

An audit looks at the files of its walk, reads those that are read for imports and the entry file,
and counts the entries of the directory of assets.  Every file that a check asks for by name is one
of the walk, as long as the names in the settings are none that a walk passes by.  So two machines
that show the same in this way have the same audit, whatever else there is on them: in directories
that are hidden or skipped, outside of the source root, or in files that are only counted.

A name can be too long for any entry.  Asking for it fails where the directory is there that should
hold it, and nowhere else; and whether a directory without files is there is not to be seen from the
walk.

## Main definitions

* `Settings.IsVisible` — settings in which no name is passed by.
* `Audit.SameView` — two machines that look the same below a source root.

## Main results

* `Audit.isFile_iff_mem` — a check asks for files of the walk only.
* `Audit.SameView.make` — the surveys are the same.
* `Audit.ofSettings_sameView` — **machines that look the same have the same audit.**
* `Audit.ofSettings_ne_longCopy` — without a look at the length of names, they need not.
-/

namespace Unimported

open Outcome
open Path (IsName)
open Settings (IsInside)
open Tree (IsReal)

/-- No name in the settings leads out of a directory, and none is passed by on a walk. -/
def Settings.IsVisible (s : Settings) (skip : List String) : Prop :=
  ∀ f ∈ nameFields, ∀ name, s.value f = .text name →
    ∀ n ∈ (Path.pieces name).filter Path.isSegment, n ≠ ".." ∧ Walk.isPassedBy skip n = false

/-- The names that the checks ask about are made of names in the settings. -/
theorem Settings.IsVisible.exists_names {s : Settings} {skip : List String} (h : s.IsVisible skip)
    (hs : s.WellTyped) {name : String} (hname : name ∈ s.asked) :
    ∃ names, Path.ofString name = ⟨.current, names⟩ ∧
      ∀ n ∈ names, Tree.IsPlain n ∧ Walk.isPassedBy skip n = false := by
  have hvisible : ∀ {f : Field} {text : String}, f ∈ nameFields → s.value f = .text text →
      ∀ n ∈ (Path.pieces text).filter Path.isSegment,
        Tree.IsPlain n ∧ Walk.isPassedBy skip n = false := by
    intro f text hf hv n hn
    obtain ⟨hup, hseen⟩ := h f hf text hv n hn
    exact ⟨Tree.isPlain_of_isSegment (List.mem_filter.mp hn).2 hup, hseen⟩
  -- a name alone
  have hone : ∀ {f : Field} {text : String}, f ∈ nameFields → s.value f = .text text →
      ∃ names, Path.ofString text = ⟨.current, names⟩ ∧
        ∀ n ∈ names, Tree.IsPlain n ∧ Walk.isPassedBy skip n = false := by
    intro f text hf hv
    exact ⟨_, Path.ofString_of_names (hs.inside hf hv).head_ne_slash rfl, hvisible hf hv⟩
  -- a name in a directory
  have htwo : ∀ {f : Field} {dir : String}, f ∈ nameFields → s.value f = .text dir →
      ∃ names, Path.ofString (dir ++ "/" ++ s.duplicateName) = ⟨.current, names⟩ ∧
        ∀ n ∈ names, Tree.IsPlain n ∧ Walk.isPassedBy skip n = false := by
    intro f dir hf hv
    have hin := hs.inside hf hv
    refine ⟨_, Path.ofString_of_names ?_ rfl, fun n hn => ?_⟩
    · rw [String.append_assoc, hin.head_append]
      exact hin.head_ne_slash
    · rw [Path.pieces_append, List.filter_append] at hn
      rcases List.mem_append.mp hn with hn | hn
      · exact hvisible hf hv n hn
      · exact hvisible (f := .duplicateName) (by decide) rfl n hn
  simp only [asked, List.mem_cons, List.not_mem_nil, or_false] at hname
  rcases hname with rfl | rfl | rfl | rfl | rfl
  · exact hone (f := .entryFile) (by decide) rfl
  · exact htwo (f := .hooksDir) (by decide) rfl
  · exact htwo (f := .uiDir) (by decide) rfl
  · exact hone (f := .stylesheet) (by decide) rfl
  · exact hone (f := .assetsDir) (by decide) rfl

example : ∀ name ∈ Settings.default.asked, ∀ n ∈ (Path.ofString name).segments,
    Walk.isPassedBy ["node_modules"] n = false := by decide +kernel

namespace Audit

variable {fs fs₁ fs₂ : FileSystem} {root real source : Path} {s : Settings} {skip : List String}
  {paths : List Path} {name : String}

/-! ### What a check asks for -/

/-- **A check asks for files of the walk only.** -/
theorem isFile_iff_mem (hs : s.WellTyped) (hskip : s.skipDirs = .texts skip)
    (hvisible : s.IsVisible skip) (hwf : fs.tree.WellFormed) (hlinks : fs.tree.Linkless)
    (hcwd : IsReal fs.tree fs.cwd) (hdir : fs.isDirectory source = .ok true)
    (hwalk : (Walk.traverse fs s.skipDirs source).outcome = .ok paths) (hname : name ∈ s.asked) :
    fs.isFile (source.joinText name) = .ok true ↔ source.joinText name ∈ paths := by
  obtain ⟨names, found, hnames, hfound, hstop, rfl⟩ := Walk.located_of_traverse hwalk
  rw [hskip, Walk.skipNames_texts] at hnames
  obtain rfl := Except.ok.inj hnames
  obtain ⟨segments, hread, hsegments⟩ := hvisible.exists_names hs hname
  have hpath : source.joinText name = ⟨source.anchor, source.segments ++ segments⟩ := by
    rw [Path.joinText, hread, Path.join_current]
  rw [hpath]
  constructor
  · exact Walk.mem_files_of_isFile hwf hlinks hcwd hdir hstop hsegments
  · exact Walk.isFile_of_mem_files hwf hlinks hcwd hfound hstop

/-- Two machines look the same below a source root: the walks find the same files, those that are
read for imports and the entry file hold the same, and the directory of assets is missing from both
or has the same entries. -/
structure SameView (fs₁ fs₂ : FileSystem) (s : Settings) (source : Path) (paths : List Path) :
    Prop where
  cwd : fs₁.cwd = fs₂.cwd
  left : fs₁.isDirectory source = .ok true
  right : fs₂.isDirectory source = .ok true
  walked_left : (Walk.traverse fs₁ s.skipDirs source).outcome = .ok paths
  walked_right : (Walk.traverse fs₂ s.skipDirs source).outcome = .ok paths
  bytes : ∀ p ∈ paths, Usage.IsRead s.sourceExtensions p ∨ p = source.joinText s.entryFile →
    fs₁.read p = fs₂.read p
  assets : (fs₁.isDirectory (source.joinText s.assetsDir) = .ok false ∧
      fs₂.isDirectory (source.joinText s.assetsDir) = .ok false) ∨
    ∃ l₁ l₂, fs₁.list (source.joinText s.assetsDir) = .ok l₁ ∧
      fs₂.list (source.joinText s.assetsDir) = .ok l₂ ∧ l₁.names = l₂.names

/-! ### The same survey, the same answers -/

section Views

variable (h : SameView fs₁ fs₂ s source paths) (hwf₁ : fs₁.tree.WellFormed)
  (hwf₂ : fs₂.tree.WellFormed) (hlinks₁ : fs₁.tree.Linkless) (hlinks₂ : fs₂.tree.Linkless)

include h hwf₁ hlinks₁ in
/-- **The surveys are the same.** -/
theorem SameView.make :
    ∃ v, (Survey.make fs₁ source s).outcome = .ok v ∧ (Survey.make fs₂ source s).outcome = .ok v ∧
      v.root = source := by
  obtain ⟨names, found, -, hfound, hstop, hfiles⟩ := Walk.located_of_traverse h.walked_left
  -- what the walk has found may be asked for its text
  have hasked : ∀ p ∈ paths, Usage.CanBeAsked fs₁ s.sourceExtensions p := by
    intro p hp _
    rw [← hfiles] at hp
    obtain ⟨place, hplace, -⟩ := Walk.exists_locate_of_mem_files hwf₁ hlinks₁ hfound hstop hp
    exact Source.exists_specifiers hplace
  obtain ⟨used, hused⟩ := Usage.exists_gather (r := .ofRoot fs₁.cwd source) hasked
  have hsame : ∀ p ∈ paths, Usage.IsRead s.sourceExtensions p →
      Source.specifiers fs₁ p = Source.specifiers fs₂ p := by
    intro p hp hread
    unfold Source.specifiers Source.read
    rw [h.bytes p hp (Or.inl hread)]
  have hused₂ := (Usage.gather_congr_of_specifiers hsame).symm.trans hused
  rw [h.cwd] at hused₂
  exact ⟨_, Survey.outcome_make h.walked_left hused, Survey.outcome_make h.walked_right hused₂, rfl⟩

variable (hcwd₁ : IsReal fs₁.tree fs₁.cwd) (hcwd₂ : IsReal fs₂.tree fs₂.cwd) (hs : s.WellTyped)
  (hskip : s.skipDirs = .texts skip) (hvisible : s.IsVisible skip)
  (hfits₁ : ∀ name ∈ s.asked, fs₁.locate (source.joinText name) ≠ .error .nameTooLong)
  (hfits₂ : ∀ name ∈ s.asked, fs₂.locate (source.joinText name) ≠ .error .nameTooLong)

include h hwf₁ hwf₂ hlinks₁ hlinks₂ hcwd₁ hcwd₂ hs hskip hvisible hfits₁ hfits₂

/-- A file that a check asks for is there on both machines or on none. -/
theorem SameView.isFile (hname : name ∈ s.asked) :
    fs₁.isFile (source.joinText name) = fs₂.isFile (source.joinText name) := by
  obtain ⟨b₁, hb₁⟩ := FileSystem.exists_isFile (hfits₁ name hname)
  obtain ⟨b₂, hb₂⟩ := FileSystem.exists_isFile (hfits₂ name hname)
  have h₁ := isFile_iff_mem hs hskip hvisible hwf₁ hlinks₁ hcwd₁ h.left h.walked_left hname
  have h₂ := isFile_iff_mem hs hskip hvisible hwf₂ hlinks₂ hcwd₂ h.right h.walked_right hname
  rw [hb₁, Except.ok.injEq] at h₁
  rw [hb₂, Except.ok.injEq] at h₂
  rw [hb₁, hb₂, Bool.eq_iff_iff.mpr (h₁.trans h₂.symm)]

/-- The checks see the same. -/
theorem SameView.alike {v : Survey} (hroot : v.root = source) :
    Scene.Alike ⟨fs₁, s, v⟩ ⟨fs₂, s, v⟩ := by
  have hfile : ∀ name ∈ s.asked, (Scene.hasFile ⟨fs₁, s, v⟩ name).outcome =
      (Scene.hasFile ⟨fs₂, s, v⟩ name).outcome := by
    intro name hname
    unfold Scene.hasFile Scene.path
    rw [hroot, h.isFile hwf₁ hwf₂ hlinks₁ hlinks₂ hcwd₁ hcwd₂ hs hskip hvisible hfits₁ hfits₂ hname]
  have hentry : s.entryFile ∈ s.asked := List.mem_cons_self
  refine ⟨rfl, rfl, hfile, ?_, fun _ _ => rfl, fun _ _ => rfl⟩
  unfold Scene.entryText
  refine traced_bind_congr (hfile s.entryFile hentry) fun present hpresent => ?_
  cases present with
  | false => rfl
  | true =>
    -- the entry file is one of the walk, and it holds the same
    have hthere : fs₂.isFile (source.joinText s.entryFile) = .ok true := by
      rw [← hroot]
      exact ofFault_eq_ok.mp hpresent
    have hmem := (isFile_iff_mem hs hskip hvisible hwf₂ hlinks₂ hcwd₂ h.right h.walked_right
      hentry).mp hthere
    simp only [Scene.path, hroot, Source.read, h.bytes _ hmem (Or.inr rfl)]

omit hwf₁ hwf₂ hlinks₁ hlinks₂ hcwd₁ hcwd₂ hs hskip hvisible hfits₁ hfits₂ in
/-- The same assets are counted. -/
theorem SameView.assetSection {v : Survey} (hroot : v.root = source) :
    ∃ sec, Check.assetSection ⟨fs₁, s, v⟩ = .ok sec ∧ Check.assetSection ⟨fs₂, s, v⟩ = .ok sec := by
  subst hroot
  rcases h.assets with ⟨hd₁, hd₂⟩ | ⟨l₁, l₂, hl₁, hl₂, hnames⟩
  · exact ⟨_, Check.assetSection_absent (x := ⟨fs₁, s, v⟩) hd₁,
      Check.assetSection_absent (x := ⟨fs₂, s, v⟩) hd₂⟩
  · have hd : ∀ {fs : FileSystem} {l : Listing}, fs.list (v.root.joinText s.assetsDir) = .ok l →
        fs.isDirectory (v.root.joinText s.assetsDir) = .ok true := by
      intro fs l hl
      obtain ⟨hloc, hdir, -, -⟩ := FileSystem.list_eq_ok hl
      exact FileSystem.isDirectory_eq_true.mpr ⟨l.real, hloc, hdir⟩
    have hsec₁ := Check.assetSection_listed (x := ⟨fs₁, s, v⟩) (hd hl₁) hl₁
    have hsec₂ := Check.assetSection_listed (x := ⟨fs₂, s, v⟩) (hd hl₂) hl₂
    rw [← hnames] at hsec₂
    exact ⟨_, hsec₁, hsec₂⟩

/-- Audits of source roots that look the same give the same result. -/
theorem SameView.ofSource :
    ∃ a, (ofSource fs₁ source s Check.all).outcome = .ok a ∧
      (ofSource fs₂ source s Check.all).outcome = .ok a := by
  obtain ⟨suffixes, hx⟩ := hs.sourceExtensions
  obtain ⟨v, hv₁, hv₂, hroot⟩ := h.make hwf₁ hlinks₁
  obtain ⟨sec, hsec₁, hsec₂⟩ := h.assetSection hroot
  have halike := h.alike hwf₁ hwf₂ hlinks₁ hlinks₂ hcwd₁ hcwd₂ hs hskip hvisible hfits₁ hfits₂ hroot
  have hscene : Scene.Fits ⟨fs₁, s, v⟩ := fun name hname => by
    rw [Scene.path, hroot]
    exact hfits₁ name hname
  obtain ⟨sections, hsections⟩ :=
    exists_runChecks_all hscene ⟨suffixes, hx⟩ hs.pageExtensions hsec₁
  have hsections₂ := (runChecks_all_congr halike (hsec₁.trans hsec₂.symm)).symm.trans hsections
  rw [outcome_ofSource hx hv₁, outcome_ofSource hx hv₂, hsections, hsections₂]
  exact ⟨_, rfl, rfl⟩

end Views

/-- The small project, with files where no walk comes to and with a file that is only counted. -/
def cluttered : FileSystem where
  tree := (((Survey.sample.tree.insert ["p", "src", "node_modules", "x.ts"] (.file [])).insert
    ["p", "src", ".git", "hooks", "useB.ts"] (.file [])).insert ["p", "src", "empty"] .directory).insert
    ["q", "README"] (.file [0])
  cwd := ["p"]

theorem isVisible_default : Settings.default.IsVisible ["node_modules"] := by
  intro f hf name hv
  simp only [Settings.nameFields, List.mem_cons, List.not_mem_nil, or_false] at hf
  rcases hf with rfl | rfl | rfl | rfl | rfl | rfl | rfl | rfl <;>
    (obtain rfl := Value.text.inj hv; decide)

theorem sameView_cluttered : SameView Survey.sample cluttered .default Survey.sampleRoot
    [⟨.root, ["p", "src", "App.tsx"]⟩, ⟨.root, ["p", "src", "hooks", "useA.ts"]⟩,
      ⟨.root, ["p", "src", "hooks", "useB.ts"]⟩] where
  cwd := rfl
  left := eq_ok_of_toOption (by decide)
  right := eq_ok_of_toOption (by decide)
  walked_left := eq_ok_of_toOption (by decide +kernel)
  walked_right := eq_ok_of_toOption (by decide +kernel)
  bytes := by
    have hall : ∀ p ∈ ([⟨.root, ["p", "src", "App.tsx"]⟩,
        ⟨.root, ["p", "src", "hooks", "useA.ts"]⟩, ⟨.root, ["p", "src", "hooks", "useB.ts"]⟩] :
          List Path), (Survey.sample.read p).toOption.isSome ∧
        (Survey.sample.read p).toOption = (cluttered.read p).toOption := by decide
    intro p hp _
    obtain ⟨hsome, hsame⟩ := hall p hp
    obtain ⟨bytes, hbytes⟩ := Option.isSome_iff_exists.mp hsome
    rw [eq_ok_of_toOption hbytes, eq_ok_of_toOption (hsame.symm.trans hbytes)]
  assets := Or.inl ⟨eq_ok_of_toOption (by decide), eq_ok_of_toOption (by decide)⟩

/-- Settings with a file to look for twice that no directory can hold. -/
def longCopy : Settings := { Settings.default with duplicateName := longName }

/-- A source root without anything. -/
def bare : FileSystem where
  tree := Tree.insert ⟨[]⟩ ["src"] .directory
  cwd := []

/-- A source root with an empty directory of hooks. -/
def hollow : FileSystem where
  tree := Tree.insert ⟨[]⟩ ["src", "hooks"] .directory
  cwd := []

/-- All names in the settings but one are the defaults. -/
theorem value_longCopy {f : Field} (hf : f ≠ .duplicateName) :
    longCopy.value f = Settings.default.value f := by
  cases f with
  | duplicateName => exact absurd rfl hf
  | _ => simp only [Settings.value, longCopy]

theorem wellTyped_longCopy : longCopy.WellTyped := by
  refine Settings.wellTyped_default.of_names (fun f hf name hv => ?_) rfl rfl rfl
  by_cases hcopy : f = .duplicateName
  · subst hcopy
    exact Value.text.inj hv ▸ isInside_longName
  · rw [value_longCopy hcopy] at hv
    exact Settings.wellTyped_default.inside hf hv

theorem isVisible_longCopy : longCopy.IsVisible ["node_modules"] := by
  intro f hf name hv
  by_cases hcopy : f = .duplicateName
  · subst hcopy
    obtain rfl := Value.text.inj hv
    have hone : (Path.pieces longCopy.duplicateName).filter Path.isSegment = [longName] := by
      rw [show longCopy.duplicateName = longName from rfl,
        Path.pieces_of_not_mem isName_longName.no_slash]
      exact Path.filter_isSegment (by simpa using isName_longName)
    intro n hn
    rw [hone] at hn
    rw [List.mem_singleton.mp hn]
    refine ⟨isName_longName.ne_dots, ?_⟩
    have hhidden : Walk.isHidden longName = false := by
      rw [Walk.isHidden, Text.opens, toList_longName]
      decide
    have hskip : ["node_modules"].contains longName = false := by
      rw [Bool.eq_false_iff]
      intro hmem
      have hsame := congrArg String.toList (List.mem_singleton.mp (List.contains_iff_mem.mp hmem))
      rw [toList_longName] at hsame
      exact absurd (congrArg List.head? hsame) (by decide)
    rw [Walk.isPassedBy, hhidden, hskip]
    rfl
  · rw [value_longCopy hcopy] at hv
    exact isVisible_default f hf name hv

theorem sameView_longCopy : SameView hollow bare longCopy ⟨.root, ["src"]⟩ [] where
  cwd := rfl
  left := eq_ok_of_toOption (by decide)
  right := eq_ok_of_toOption (by decide)
  walked_left := eq_ok_of_toOption (by decide +kernel)
  walked_right := eq_ok_of_toOption (by decide +kernel)
  bytes := fun p hp => (List.not_mem_nil hp).elim
  assets := Or.inl ⟨eq_ok_of_toOption (by decide), eq_ok_of_toOption (by decide)⟩

/-- The path of a copy that is looked for. -/
theorem joinText_longName {dir : String} (hdir : IsInside dir) {way : List String}
    (hway : ∀ n ∈ way, IsName n) (h : Path.relativeText way = Category.trimSlashes dir) :
    Path.joinText ⟨.root, ["src"]⟩ (dir ++ "/" ++ longName) =
      ⟨.root, "src" :: (way ++ [longName])⟩ :=
  Category.joinText_eq_child ⟨.root, ["src"]⟩ hdir hway isName_longName h

/-- A directory that is there cannot be asked for the copy. -/
theorem isFile_hollow : hollow.isFile ⟨.root, ["src", "hooks", longName]⟩ = .error .nameTooLong := by
  refine FileSystem.isFile_of_nameTooLong (FileSystem.locate_of_error
    (eq_error_of_reason? (by decide +kernel)) (fun n hn => ?_) fun _ => rfl)
  simp only [List.mem_cons, List.not_mem_nil, or_false] at hn
  rcases hn with rfl | rfl | rfl
  · decide
  · decide
  · exact isName_longName.no_zero

/-- Where the directory is missing, the copy is missing as well. -/
theorem isFile_bare : bare.isFile ⟨.root, ["src", "hooks", longName]⟩ = .ok false := by
  have hlocate : bare.locate ⟨.root, ["src", "hooks", longName]⟩ = .error .missing := by
    refine FileSystem.locate_of_error (eq_error_of_reason? (by decide)) (fun n hn => ?_)
      fun hlong => absurd hlong (by decide +kernel)
    simp only [List.mem_cons, List.not_mem_nil, or_false] at hn
    rcases hn with rfl | rfl | rfl
    · decide
    · decide
    · exact isName_longName.no_zero
  exact FileSystem.isFile_of_error hlocate (by decide)

/-- The survey of a source root without files. -/
def nothing : Survey := ⟨⟨.root, ["src"]⟩, [], .empty⟩

/-- Where nothing is to be checked, a check asks for the copy at most. -/
theorem exists_run_nothing {fs : FileSystem} {c : Check} (hc : c ∈ [Check.components, .hooks, .pages]) :
    ∃ sec, (c.run ⟨fs, longCopy, nothing⟩).outcome = .ok sec := by
  simp only [List.mem_cons, List.not_mem_nil, or_false] at hc
  rcases hc with rfl | rfl | rfl
  · exact ⟨_, rfl⟩
  · exact ⟨_, rfl⟩
  · exact ⟨_, rfl⟩

/-- The file that the check on duplicates asks for first. -/
theorem hasFile_longCopy (fs : FileSystem) :
    Scene.hasFile ⟨fs, longCopy, nothing⟩ (longCopy.hooksDir ++ "/" ++ longCopy.duplicateName) =
      .ofFault (fs.isFile ⟨.root, ["src", "hooks", longName]⟩) := by
  have hdir : IsInside "hooks" := ⟨by decide, by decide, by decide⟩
  have hway : ∀ n ∈ ["hooks"], IsName n := by decide
  have hpath := joinText_longName hdir hway (by decide)
  exact congrArg (fun p => Traced.ofFault (fs.isFile p)) hpath

end Audit

end Unimported
