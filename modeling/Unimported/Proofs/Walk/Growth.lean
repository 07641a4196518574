import Unimported.Proofs.Tree.Growth
import Unimported.Proofs.Walk.Linkless

/-!
# Walks through a tree that has grown

A new file changes no answer about anything that was there before: paths lead where they led, and
files are read as they were.  So a walk that ends finds what it found before, and at most the new
file besides, wherever it stands in the order.

## Main definitions

* `FileSystem.withFile` — a machine on which a new file was put somewhere.

## Main results

* `FileSystem.locate_withFile`, `FileSystem.read_withFile` — what was there before is found and read
  alike.
* `FileSystem.locate_of_withFile` — what is found now was found before, unless it is new.
* `Walk.mem_files_withFile`, `Walk.mem_files_of_withFile` — **a walk finds what it found before, and
  the new file at most.**
-/

namespace Unimported

open Path (IsName)
open Tree (IsReal LeadsIn)

variable {fs : FileSystem} {loc found real : Location} {bytes : List UInt8} {p root : Path}

namespace FileSystem

/-- The machine on which a file was put somewhere, with the directories that are missing on the way
to it. -/
def withFile (fs : FileSystem) (loc : Location) (bytes : List UInt8) : FileSystem :=
  { fs with tree := fs.tree.insert loc (.file bytes) }

section WithFile

variable (hground : fs.tree.Grounded) (hnew : fs.tree.node? loc = none)

include hground hnew

theorem grows_withFile (bytes : List UInt8) :
    fs.tree.Grows (fs.withFile loc bytes).tree loc :=
  Tree.grows_insert (n := .file bytes) hground hnew (by simp)

/-- A new file is no link. -/
theorem linkless_withFile (hlinks : fs.tree.Linkless) (bytes : List UInt8) :
    (fs.withFile loc bytes).tree.Linkless := by
  have hne : loc ≠ [] := by
    rintro rfl
    cases hnew
  refine (grows_withFile hground hnew bytes).linkless hlinks fun target htarget => ?_
  rw [withFile, Tree.node?_insert_self hne (by simp)] at htarget
  cases htarget

/-- What was found before is found at the same place. -/
theorem locate_withFile (bytes : List UInt8) (h : fs.locate p = .ok found) :
    (fs.withFile loc bytes).locate p = .ok found := by
  obtain ⟨⟨k, hk, hlead⟩, hshort⟩ := locate_eq_ok.mp h
  have hlead' := (grows_withFile hground hnew bytes).leadsIn hlead
  exact locate_eq_ok.mpr ⟨⟨k, hk, hlead'⟩, hshort⟩

/-- What was there before is read as it was. -/
theorem read_withFile (hwf : fs.tree.WellFormed) (hcwd : IsReal fs.tree fs.cwd)
    (bytes : List UInt8) (h : fs.locate p = .ok found) :
    (fs.withFile loc bytes).read p = fs.read p := by
  obtain ⟨n, hn⟩ := (isReal_of_locate hwf hcwd h).exists_node
  have hn' := (grows_withFile hground hnew bytes).kept found n hn
  have hdenied : (fs.withFile loc bytes).isDenied p = fs.isDenied p := rfl
  unfold read
  rw [hdenied, locate_withFile hground hnew bytes h, h]
  simp only [hn, hn']

/-- **What is found now was found before**, if it was there. -/
theorem locate_of_withFile (hwf : fs.tree.WellFormed) (hlinks : fs.tree.Linkless)
    (hroot : fs.locate root = .ok real) {way : List String} (hplain : ∀ n ∈ way, Tree.IsPlain n)
    (h : (fs.withFile loc bytes).locate ⟨root.anchor, root.segments ++ way⟩ = .ok found) {n : Node}
    (hn : fs.tree.node? found = some n) :
    fs.locate ⟨root.anchor, root.segments ++ way⟩ = .ok found := by
  have hroot' := locate_withFile hground hnew bytes hroot
  have hlinks' := linkless_withFile hground hnew hlinks bytes
  obtain ⟨-, rfl⟩ := leadsIn_of_locate_append hlinks' hroot' hplain h
  obtain ⟨⟨k, hk, hlead⟩, -⟩ := locate_eq_ok.mp hroot
  have hway := (hground.isReal hwf hlinks hn).leadsIn_append
  exact locate_eq_ok.mpr ⟨⟨k, hk, hlead.append hway⟩, (locate_eq_ok.mp h).2⟩

end WithFile

end FileSystem

namespace Walk

open FileSystem (grows_withFile linkless_withFile locate_withFile locate_of_withFile)

variable {skip : List String} {f : Path} (hwf : fs.tree.WellFormed) (hlinks : fs.tree.Linkless)
  (hground : fs.tree.Grounded) (hcwd : IsReal fs.tree fs.cwd) (hloc : ∀ n ∈ loc, IsName n)
  (hnew : fs.tree.node? loc = none) (hroot : fs.locate root = .ok real)
  (hstop : (ofRoot fs skip root).stopped = none)
  (hstop' : (ofRoot (fs.withFile loc bytes) skip root).stopped = none)

include hwf hlinks hground hcwd hloc hnew hroot hstop hstop'

/-- **What a walk found before it finds still.** -/
theorem mem_files_withFile (hf : f ∈ (ofRoot fs skip root).files) :
    f ∈ (ofRoot (fs.withFile loc bytes) skip root).files := by
  obtain ⟨way, name, found, hway, hname, hpath, hfound, hfile⟩ :=
    (mem_files_iff_of_linkless hwf hlinks hcwd hroot hstop).mp hf
  have hgrows := grows_withFile hground hnew bytes
  have hlinks' := linkless_withFile hground hnew hlinks bytes
  have hroot' := locate_withFile hground hnew bytes hroot
  have hwf' : (fs.withFile loc bytes).tree.WellFormed := hwf.insert hloc _
  have hcwd' : IsReal (fs.withFile loc bytes).tree fs.cwd := hgrows.isReal hcwd
  obtain ⟨n, hn⟩ := (FileSystem.isReal_of_locate hwf hcwd hfound).exists_node
  refine (mem_files_iff_of_linkless hwf' hlinks' hcwd' hroot' hstop').mpr
    ⟨way, name, found, hway, hname, hpath, locate_withFile hground hnew bytes hfound, ?_⟩
  rw [hgrows.hasDirectory_eq hn, hfile]

/-- **What a walk finds now it found before**, unless it is the new file. -/
theorem mem_files_of_withFile (hf : f ∈ (ofRoot (fs.withFile loc bytes) skip root).files)
    (hold : (fs.withFile loc bytes).locate f ≠ .ok loc) : f ∈ (ofRoot fs skip root).files := by
  have hgrows := grows_withFile hground hnew bytes
  have hlinks' := linkless_withFile hground hnew hlinks bytes
  have hroot' := locate_withFile hground hnew bytes hroot
  have hwf' : (fs.withFile loc bytes).tree.WellFormed := hwf.insert hloc _
  have hcwd' : IsReal (fs.withFile loc bytes).tree fs.cwd := hgrows.isReal hcwd
  obtain ⟨way, name, found, hway, hname, rfl, hfound, hfile⟩ :=
    (mem_files_iff_of_linkless hwf' hlinks' hcwd' hroot' hstop').mp hf
  -- something stands there, and of what is new only the file is no directory
  obtain ⟨n, hn'⟩ := (FileSystem.isReal_of_locate hwf' hcwd' hfound).exists_node
  have hn : fs.tree.node? found = some n := by
    rcases hgrows.new found n hn' with hn | rfl | rfl
    · exact hn
    · exact absurd hfound hold
    · rw [Tree.hasDirectory, hn'] at hfile
      cases hfile
  have hfound₀ : fs.locate (Path.child ⟨root.anchor, root.segments ++ way⟩ name) = .ok found := by
    rw [Path.child, List.append_assoc] at hfound ⊢
    exact locate_of_withFile hground hnew hwf hlinks hroot (hway.isPlain_concat hname) hfound hn
  refine (mem_files_iff_of_linkless hwf hlinks hcwd hroot hstop).mpr
    ⟨way, name, found, hway, hname, rfl, hfound₀, ?_⟩
  rw [← hgrows.hasDirectory_eq hn, hfile]

end Walk

end Unimported
