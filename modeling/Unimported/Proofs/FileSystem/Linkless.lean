import Unimported.Proofs.FileSystem.Located
import Unimported.Proofs.Outcome
import Unimported.Proofs.Tree.Linkless

/-!
# File systems without links

Where no link stands, the location behind a path is the path evaluated on its names.  So a path is
denied just when the location behind it is, and what is not a directory is not denied if only
directories are.

## Main definitions

* `Path.IsRooted` — a path from the root that is made of segments.
* `FileSystem.opened` — the file system in which nothing is denied.

## Main results

* `FileSystem.list_eq`, `FileSystem.read_eq` — what being denied changes.
* `FileSystem.locate_eq_collapse` — **the location behind a path is the path without its steps
  out.**
* `FileSystem.leadsIn_of_locate_append` — names behind a path lead one level down each.
* `FileSystem.absolute_of_locate` — so what is denied is denied by its location.
* `FileSystem.isDenied_eq_false` — what is no directory is not denied if only directories are.
* `FileSystem.resolve_of_isReal` — what is its own canonical path, however long.
* `FileSystem.resolve_unique` — a path is resolved alike on all machines without links.
-/

namespace Unimported

/-- A path that starts at the root and is made of segments. -/
structure Path.IsRooted (p : Path) : Prop where
  anchor : p.anchor = .root
  segments : ∀ s ∈ p.segments, Path.isSegment s = true

/-- A name that does not start with a slash leads on from a path. -/
theorem Path.IsRooted.joinText {p : Path} (h : p.IsRooted) {s : String}
    (hs : s.toList.head? ≠ some '/') : (p.joinText s).IsRooted := by
  have hread := ofString_of_names hs rfl
  unfold Path.joinText
  rw [hread, join_current]
  refine ⟨h.anchor, fun n hn => ?_⟩
  rcases List.mem_append.mp hn with hn | hn
  · exact h.segments n hn
  · exact (List.mem_filter.mp hn).2

namespace FileSystem

open Path (collapse)
open Tree (IsReal Leads LeadsIn)

variable {fs : FileSystem} {p q dir : Path} {real : Location}

/-- The file system in which nothing is denied. -/
def opened (fs : FileSystem) : FileSystem := fs.deny []

@[simp] theorem isDirectory_opened (fs : FileSystem) (p : Path) :
    fs.opened.isDirectory p = fs.isDirectory p := rfl

/-- Being denied keeps a directory from being listed, and changes nothing else about it. -/
theorem list_eq (fs : FileSystem) (p : Path) :
    fs.list p = if fs.isDenied p then .error .denied else fs.opened.list p := rfl

/-- Being denied keeps a file from being read, and changes nothing else about it. -/
theorem read_eq (fs : FileSystem) (p : Path) :
    fs.read p = if fs.isDenied p then .error .denied else fs.opened.read p := rfl

/-! ### Locations -/

/-- **The location behind a path from the root is the path without its steps out.** -/
theorem locate_eq_collapse (hlinks : fs.tree.Linkless) (hp : p.IsRooted)
    (h : fs.locate p = .ok real) : real = collapse p.segments := by
  obtain ⟨⟨k, -, hlead⟩, -⟩ := locate_eq_ok.mp h
  obtain ⟨-, hreal⟩ := hlead.eq_foldl_enter hlinks
  have hstart : fs.start p = [] := by simp [start, Path.isAbsolute, hp.anchor]
  rw [List.filter_eq_self.mpr hp.segments, hstart] at hreal
  exact hreal

/-- Behind a path that is found, names lead one level down each. -/
theorem leadsIn_of_locate_append (hlinks : fs.tree.Linkless) (hdir : fs.locate dir = .ok real)
    {way : List String} (hplain : ∀ n ∈ way, Tree.IsPlain n) {found : Location}
    (h : fs.locate ⟨dir.anchor, dir.segments ++ way⟩ = .ok found) :
    LeadsIn fs.tree 0 real way found ∧ found = real ++ way := by
  obtain ⟨⟨k, -, hlead⟩, -⟩ := locate_eq_ok.mp h
  obtain ⟨⟨k', -, hdirLead⟩, -⟩ := locate_eq_ok.mp hdir
  obtain ⟨j, i, mid, hj, hi, -⟩ := LeadsIn.split (p := dir.segments) hlead
  obtain ⟨-, rfl⟩ := hdirLead.unique hj
  obtain ⟨rfl, hfound⟩ := hi.eq_append (hlinks.below real) hplain
  exact ⟨hi, hfound⟩

/-- Made absolute, a path from the root is the location behind it. -/
theorem absolute_of_locate (hlinks : fs.tree.Linkless) (hp : p.IsRooted)
    (h : fs.locate p = .ok real) : p.absolute fs.cwd = ⟨.root, real⟩ := by
  rw [locate_eq_collapse hlinks hp h]
  simp [Path.absolute, hp.anchor]

/-- **What is no directory is not denied if only directories are.** -/
theorem isDenied_eq_false (hlinks : fs.tree.Linkless)
    (hdenied : ∀ d ∈ fs.denied, fs.isDirectory d = .ok true) (hp : p.IsRooted)
    (h : fs.locate p = .ok real) (hd : fs.tree.hasDirectory real = false) : fs.isDenied p = false := by
  rw [Bool.eq_false_iff]
  intro hmem
  have hreal := locate_eq_collapse hlinks hp h
  have habsolute := absolute_of_locate hlinks hp h
  -- the denied path is a directory, and it is at the same location
  have hdirectory := hdenied (p.absolute fs.cwd) (List.contains_iff_mem.mp hmem)
  rw [habsolute] at hdirectory
  obtain ⟨found, hfound, hfoundDir⟩ := isDirectory_eq_true.mp hdirectory
  have hsame : found = real := by
    have hrooted : Path.IsRooted ⟨.root, real⟩ := by
      refine ⟨rfl, fun s hs => ?_⟩
      rw [hreal] at hs
      rcases Path.of_mem_foldl_enter hs with hs | ⟨hs, -⟩
      · exact (List.not_mem_nil hs).elim
      · exact hp.segments s hs
    have hcollapse : collapse real = real := by rw [hreal, Path.collapse_collapse]
    exact (locate_eq_collapse hlinks hrooted hfound).trans hcollapse
  rw [hsame, hd] at hfoundDir
  cases hfoundDir

/-- Without links, an entry that leads somewhere is not refused because of too many of them. -/
theorem not_leads_of_tooManyLinks (hlinks : fs.tree.Linkless) (hdir : fs.locate dir = .ok real)
    {n : String} (h : fs.locate (dir.child n) = .error .tooManyLinks) (found : Location) :
    ¬ Leads fs.tree real [n] found := by
  rintro ⟨i, hi⟩
  obtain ⟨⟨j, -, hj⟩, -⟩ := locate_eq_ok.mp hdir
  have hlead : LeadsIn fs.tree (j + i) (fs.start (dir.child n)) (dir.child n).segments found :=
    hj.append hi
  obtain ⟨hzero, -⟩ := hlead.eq_foldl_enter hlinks
  have hfollow := Tree.followAtMost_of_leadsIn hlead Tree.mostLinks
  rw [if_pos (hzero ▸ Nat.zero_le _)] at hfollow
  unfold locate judged Tree.follow at h
  rw [hfollow] at h
  simp only at h
  split at h
  · cases h
  · cases h

/-! ### Canonical paths -/

/-- **A real location is its own canonical path**, however long paths may be. -/
theorem resolve_of_isReal (h : IsReal fs.tree real) :
    fs.resolve ⟨.root, real⟩ = .ok ⟨.root, real⟩ := by
  unfold resolve
  rw [Tree.canonical_of_isReal _ _ h]
  rcases locate_of_isReal h with h | h
  · simp only [bind, Except.bind, h]
  · simp only [bind, Except.bind, h]

/-- What a path is resolved to is its canonical form. -/
theorem canonical_of_resolve (h : fs.resolve p = .ok q) :
    fs.tree.canonical fs.longestPath fs.cwd p = .ok q := by
  unfold resolve at h
  obtain ⟨found, hfound, h⟩ := Outcome.bind_eq_ok.mp h
  have hsame : found = q := by
    split at h
    · cases h
    · cases h
    · exact Except.ok.inj h
  rwa [hsame] at hfound

/-- **A canonical path** starts at the root and is made of segments. -/
theorem isRooted_of_resolve (hlinks : fs.tree.Linkless) (hcwd : IsReal fs.tree fs.cwd)
    (h : fs.resolve p = .ok q) : q.IsRooted := by
  obtain ⟨hanchor, hplain⟩ := Tree.canonical_of_linkless hlinks
    (fun n hn => Tree.isPlain_of_isName (hcwd.isName n hn)) (canonical_of_resolve h)
  exact ⟨hanchor, fun s hs => Tree.isSegment_of_isPlain (hplain s hs)⟩

/-- **A path is resolved alike on all machines without links** that have the same current directory,
wherever it is resolved at all. -/
theorem resolve_unique {fs' : FileSystem} {q' : Path} (hlinks : fs.tree.Linkless)
    (hlinks' : fs'.tree.Linkless) (hcwd : fs.cwd = fs'.cwd) (h : fs.resolve p = .ok q)
    (h' : fs'.resolve p = .ok q') : q = q' := by
  have hq := canonical_of_resolve h
  have hq' := canonical_of_resolve h'
  rw [Tree.canonical_longest hlinks] at hq
  rw [Tree.canonical_longest hlinks', ← hcwd] at hq'
  exact Tree.canonical_unique_of_linkless hlinks hlinks' hq hq'

end FileSystem

end Unimported
