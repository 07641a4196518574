import Unimported.Proofs.FileSystem.Located
import Unimported.Settings.Load

/-!
# One directory under two paths

A directory can be asked for under any path that leads to it.  Asked for as a text that is taken as it
stands, it is found as well; and its entries are the same as under its canonical path, within the
bounds: a longer path may be refused, and one through more links too.

## Main results

* `FileSystem.leadsToFile_of_isDirectory` — what leads to a directory leads to no file.
* `FileSystem.locate_canonical_child`, `FileSystem.locate_child_of_canonical` — an entry under a
  path, and under the canonical one.
* `FileSystem.node?_canonical_child` — what stands there is the same.
* `Settings.ofProject_canonical` — **the settings file of a project is the same under both.**
-/

namespace Unimported

open Tree (Leads LeadsIn IsReal)

namespace FileSystem

variable {fs : FileSystem} {p : Path} {real found : Location} {n v : String}

/-! ### Texts taken as they stand -/

/-- Where a text starts is told by its first character. -/
theorem isAbsolute_ofString (v : String) :
    (Path.ofString v).isAbsolute = true ↔ v.toList.head? = some '/' := by
  unfold Path.ofString Path.isAbsolute
  cases v.toList with
  | nil => simp [Path.anchorOf]
  | cons c cs =>
    by_cases hc : c = '/'
    · subst hc
      simp only [Path.anchorOf, List.head?_cons, iff_true]
      split <;> simp_all
    · have hanchor : Path.anchorOf (c :: cs) = .current := by
        unfold Path.anchorOf
        split <;> simp_all
      simp [hanchor, hc]

theorem start_ofString (fs : FileSystem) (v : String) :
    fs.start (.ofString v) = Tree.stepsFrom fs.cwd v := by
  unfold start Tree.stepsFrom
  by_cases h : v.toList.head? = some '/'
  · rw [if_pos ((isAbsolute_ofString v).mpr h), if_pos h]
  · rw [if_neg (mt (isAbsolute_ofString v).mp h), if_neg h]

/-- **What leads to a directory leads to no file**, taken as it stands. -/
theorem leadsToFile_of_isDirectory (h : fs.isDirectory (.ofString v) = .ok true) :
    fs.leadsToFile v = .ok false := by
  obtain ⟨real, hreal, hd⟩ := isDirectory_eq_true.mp h
  obtain ⟨⟨k, hk, hlead⟩, -⟩ := locate_eq_ok.mp hreal
  rw [start_ofString, show (Path.ofString v).segments = _ from (Tree.filter_steps v).symm] at hlead
  have hfollow : fs.tree.follow (Tree.stepsFrom fs.cwd v) (Tree.steps v) = .ok real :=
    Tree.followAtMost_eq_ok.mpr ⟨k, hk, hlead.of_filter hd⟩
  have hnode : fs.tree.node? real = some .directory := of_decide_eq_true hd
  unfold leadsToFile reach judged
  rw [hfollow]
  by_cases hlong : fs.isTooLong v = true
  · simp only [hlong, if_true]
  · simp only [hlong, Bool.false_eq_true, if_false, hnode]
    rfl

/-! ### Entries -/

/-- The canonical path of a location. -/
abbrev canonicalPath (real : Location) : Path := ⟨.root, real⟩

/-- An entry that is found under a path is found under the canonical one, unless this is too long. -/
theorem locate_canonical_child (hreal : IsReal fs.tree real) (hp : fs.locate p = .ok real)
    (hshort : fs.locate ((canonicalPath real).child n) ≠ .error .nameTooLong)
    (h : fs.locate (p.child n) = .ok found) :
    fs.locate ((canonicalPath real).child n) = .ok found := by
  obtain ⟨⟨j, -, hj⟩, -⟩ := locate_eq_ok.mp hp
  obtain ⟨⟨k, hk, hlead⟩, -⟩ := locate_eq_ok.mp h
  obtain ⟨j', i, mid, hj', hi, rfl⟩ := LeadsIn.split (p := p.segments) hlead
  obtain ⟨rfl, rfl⟩ := hj.unique hj'
  have hcanonical : LeadsIn fs.tree (0 + i) (fs.start (canonicalPath real))
      ((canonicalPath real).child n).segments found := hreal.leadsIn.append hi
  have hfollow : fs.tree.follow (fs.start ((canonicalPath real).child n))
      ((canonicalPath real).child n).segments = .ok found :=
    Tree.followAtMost_eq_ok.mpr ⟨0 + i, by omega, hcanonical⟩
  unfold locate judged at hshort ⊢
  rw [hfollow] at hshort ⊢
  simp only at hshort ⊢
  split
  · next hlong =>
    rw [if_pos hlong] at hshort
    exact absurd rfl hshort
  · rfl

/-- An entry that is found under the canonical path is found under any other, unless this is too long
or goes through too many links. -/
theorem locate_child_of_canonical (hwf : fs.tree.WellFormed) (hreal : IsReal fs.tree real)
    (hp : fs.locate p = .ok real) (hshort : fs.locate (p.child n) ≠ .error .nameTooLong)
    (hlinks : fs.locate (p.child n) = .error .tooManyLinks →
      ∀ found, ¬ Leads fs.tree real [n] found)
    (h : fs.locate ((canonicalPath real).child n) = .ok found) :
    fs.locate (p.child n) = .ok found := by
  obtain ⟨⟨k, -, hlead⟩, -⟩ := locate_eq_ok.mp h
  obtain ⟨j, i, mid, hj, hi, -⟩ := LeadsIn.split (p := real) hlead
  obtain ⟨-, rfl⟩ := hreal.leadsIn.unique hj
  have hleads : Leads fs.tree real [n] found := ⟨i, hi⟩
  exact locate_child_of_leads hwf hp hleads hshort fun hmany => hlinks hmany found hleads

/-- What stands under a path stands under the canonical one, within the bounds. -/
theorem node?_canonical_child (hwf : fs.tree.WellFormed) (hreal : IsReal fs.tree real)
    (hp : fs.locate p = .ok real)
    (hshort : fs.locate ((canonicalPath real).child n) ≠ .error .nameTooLong)
    (hlinks : fs.locate (p.child n) = .error .tooManyLinks → ∀ found, ¬ Leads fs.tree real [n] found)
    {x : Option Node} (h : fs.node? (p.child n) = .ok x) :
    fs.node? ((canonicalPath real).child n) = .ok x := by
  cases hfound : fs.locate (p.child n) with
  | ok found =>
    rw [node?_of_locate hfound] at h
    rw [node?_of_locate (locate_canonical_child hreal hp hshort hfound)]
    exact h
  | error e =>
    have hne : e ≠ .nameTooLong := by
      rintro rfl
      unfold node? at h
      rw [hfound] at h
      cases h
    rw [node?_of_error hfound hne] at h
    cases hcanonical : fs.locate ((canonicalPath real).child n) with
    | ok found =>
      have hshort' : fs.locate (p.child n) ≠ .error .nameTooLong := fun hlong =>
        hne (Except.error.inj (hfound.symm.trans hlong))
      have hok := locate_child_of_canonical hwf hreal hp hshort' hlinks hcanonical
      rw [hfound] at hok
      cases hok
    | error e' =>
      rw [node?_of_error hcanonical fun he => hshort (he ▸ hcanonical)]
      exact h

/-- What stands under a path is read as under the canonical one, when nothing is denied. -/
theorem read_canonical_child (hdenied : fs.denied = []) (hreal : IsReal fs.tree real)
    (hp : fs.locate p = .ok real)
    (hshort : fs.locate ((canonicalPath real).child n) ≠ .error .nameTooLong) {x : Node}
    (h : fs.node? (p.child n) = .ok (some x)) :
    fs.read (p.child n) = fs.read ((canonicalPath real).child n) := by
  cases hfound : fs.locate (p.child n) with
  | ok found =>
    unfold read
    rw [isDenied_of_nil hdenied, isDenied_of_nil hdenied, hfound,
      locate_canonical_child hreal hp hshort hfound]
  | error e =>
    unfold node? at h
    rw [hfound] at h
    cases e <;> cases h

end FileSystem

namespace Settings

open FileSystem (canonicalPath)

variable {fs : FileSystem} {p q : Path} {real : Location} {t : Table}

/-- The table in a text does not depend on where the text comes from. -/
theorem ofText_of_ofText {text : List Char} (h : ofText p text = .ok t) : ofText q text = .ok t := by
  unfold ofText at h ⊢
  split at h
  · cases h
  · cases h
  · cases h
  · next data hdata =>
    split at h
    · exact h
    · exact h
    · cases h

/-- Nor does the table in a file depend on the path under which the file is read. -/
theorem ofFile_of_read (hread : fs.read p = fs.read q) (h : ofFile fs p = .ok t) :
    ofFile fs q = .ok t := by
  unfold ofFile at h ⊢
  rw [← hread]
  split at h
  · cases h
  · next bytes hbytes =>
    split at h
    · cases h
    · exact ofText_of_ofText h

theorem ofProject_of_present (h : fs.present (p.child fileName) = .ok true) :
    ofProject fs p = ofFile fs (p.child fileName) := by
  unfold ofProject isThere
  simp only [h]
  rfl

theorem ofProject_of_not_present (h : fs.present (p.child fileName) = .ok false) :
    ofProject fs p = .ok [] := by
  unfold ofProject isThere
  simp only [h]
  rfl

/-- **The settings file of a project is the same under its canonical path**, within the bounds. -/
theorem ofProject_canonical (hwf : fs.tree.WellFormed) (hdenied : fs.denied = [])
    (hreal : IsReal fs.tree real) (hp : fs.locate p = .ok real)
    (hshort : fs.locate ((canonicalPath real).child fileName) ≠ .error .nameTooLong)
    (hlinks : fs.locate (p.child fileName) = .error .tooManyLinks →
      ∀ found, ¬ Leads fs.tree real [fileName] found)
    (h : ofProject fs p = .ok t) : ofProject fs (canonicalPath real) = .ok t := by
  cases hnode : fs.node? (p.child fileName) with
  | error f =>
    have hrefused : ofProject fs p = .error (.fault f) := by
      unfold ofProject isThere FileSystem.present
      simp only [hnode]
      rfl
    rw [hrefused] at h
    cases h
  | ok x =>
    have hnode' := FileSystem.node?_canonical_child hwf hreal hp hshort hlinks hnode
    cases x with
    | none =>
      rw [ofProject_of_not_present (by rw [FileSystem.present, hnode]; rfl)] at h
      rw [ofProject_of_not_present (by rw [FileSystem.present, hnode']; rfl)]
      exact h
    | some x =>
      have hread := FileSystem.read_canonical_child hdenied hreal hp hshort hnode
      rw [ofProject_of_present (by rw [FileSystem.present, hnode]; rfl)] at h
      rw [ofProject_of_present (by rw [FileSystem.present, hnode']; rfl)]
      exact ofFile_of_read hread h

end Settings

end Unimported
