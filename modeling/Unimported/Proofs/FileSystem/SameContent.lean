import Unimported.Proofs.FileSystem.Linkless

/-!
# Directories with the same content

What stands below one directory may stand below another as well, on the same machine or on another
one.  If no link stands there, a way below the one directory leads just as far as it does below the
other, and what is found at its end is the same, whether it is denied or not.  Only the bound on the
length of paths, which counts from the root, may tell the two directories apart.

## Main definitions

* `FileSystem.LiesPlain` — a directory without links.
* `FileSystem.SameContent` — the same stands below two directories.
* `Tree.branch` — the entries of a tree from a location on.

## Main results

* `SameContent.isReal`, `SameContent.names` — the ways below the directories, and the names there.
* `SameContent.locate` — **a way below the one directory is found below the other**, if it is not
  too long there.
* `SameContent.node?`, `SameContent.read` — what is found at its end.
* `SameContent.of_branch` — directories with the same branches.
-/

namespace Unimported

/-- The entries of a tree from a location on, told by the ways from there. -/
def Tree.branch (t : Tree) (base : Location) : List (Location × Node) :=
  t.entries.filterMap fun e =>
    if base <+: e.place then some (e.place.drop base.length, e.node) else none

/-- What stands at the end of a way from a location is told by the branch there. -/
theorem Tree.node?_append {t : Tree} {base : Location} (hne : base ≠ []) (way : List String) :
    t.node? (base ++ way) = ((t.branch base).find? fun e => e.1 = way).map Prod.snd := by
  have hplace : ∀ e : Entry, e.place = base ++ way ↔
      base <+: e.place ∧ e.place.drop base.length = way := fun e => by
    constructor
    · intro h
      rw [h]
      exact ⟨List.prefix_append _ _, List.drop_left⟩
    · rintro ⟨⟨rest, hrest⟩, rfl⟩
      rw [← hrest, List.drop_left]
  have hway : base ++ way ≠ [] := by simp [hne]
  rw [node?, if_neg hway, entry?_eq, branch]
  induction t.entries with
  | nil => rfl
  | cons e entries ih =>
    by_cases hbase : base <+: e.place
    · by_cases hrest : e.place.drop base.length = way
      · have he := (hplace e).mpr ⟨hbase, hrest⟩
        simp [he]
      · have he : ¬ e.place = base ++ way := fun he => hrest ((hplace e).mp he).2
        simpa [hbase, hrest, he] using ih
    · have he : ¬ e.place = base ++ way := fun he => hbase ((hplace e).mp he).1
      simpa [hbase, he] using ih

namespace FileSystem

open Path (IsName)
open Tree (IsReal LeadsIn)

/-- A directory of a machine to which no link leads, and below which none stands. -/
structure LiesPlain (fs : FileSystem) (base : Location) : Prop where
  wellFormed : fs.tree.WellFormed
  real : IsReal fs.tree base
  linkless : fs.tree.LinklessBelow base

/-- The same stands below two directories without links, and the same is denied there. -/
structure SameContent (fs₁ fs₂ : FileSystem) (base₁ base₂ : Location) : Prop where
  left : fs₁.LiesPlain base₁
  right : fs₂.LiesPlain base₂
  /-- The same stands at the end of every way. -/
  same : ∀ way, fs₁.tree.node? (base₁ ++ way) = fs₂.tree.node? (base₂ ++ way)
  /-- What is denied in one place is denied in the other. -/
  denied : ∀ way, (∀ n ∈ way, IsName n) →
    fs₁.isDenied (.under base₁ way) = fs₂.isDenied (.under base₂ way)

/-! ### Ways below a directory -/

section LiesPlain

variable {fs : FileSystem} {base real : Location} {way : List String}

/-- **Where a way below a directory without links leads.** -/
theorem LiesPlain.eq_of_locate (h : fs.LiesPlain base) (hway : ∀ n ∈ way, IsName n)
    (hloc : fs.locate (.under base way) = .ok real) : real = base ++ way ∧ IsReal fs.tree real := by
  obtain ⟨⟨k, -, hlead⟩, -⟩ := locate_eq_ok.mp hloc
  have hlead : LeadsIn fs.tree k [] (base ++ way) real := hlead
  obtain ⟨j, i, mid, hj, hi, -⟩ := LeadsIn.split (p := base) hlead
  obtain ⟨-, rfl⟩ := h.real.leadsIn.unique hj
  obtain ⟨-, hreal⟩ := hi.eq_append h.linkless fun n hn => Tree.isPlain_of_isName (hway n hn)
  exact ⟨hreal, hlead.isReal h.wellFormed .root⟩

/-- A way that leads straight down is one of names. -/
theorem LiesPlain.isName_of_locate (h : fs.LiesPlain base)
    (hloc : fs.locate (.under base way) = .ok (base ++ way)) : ∀ n ∈ way, IsName n := by
  obtain ⟨⟨k, -, hlead⟩, -⟩ := locate_eq_ok.mp hloc
  have hreal : IsReal fs.tree (base ++ way) := LeadsIn.isReal h.wellFormed .root hlead
  exact fun n hn => hreal.isName n (List.mem_append_right base hn)

/-- A real location is found, if it is not too long. -/
theorem locate_under (hreal : IsReal fs.tree (base ++ way))
    (hshort : fs.locate (.under base way) ≠ .error .nameTooLong) :
    fs.locate (.under base way) = .ok (base ++ way) :=
  (locate_of_isReal hreal).resolve_right hshort

/-- No link stands below a directory of one without links. -/
theorem LiesPlain.under (h : fs.LiesPlain base) (hreal : IsReal fs.tree (base ++ way)) :
    fs.LiesPlain (base ++ way) where
  wellFormed := h.wellFormed
  real := hreal
  linkless := fun rest target => by
    rw [List.append_assoc]
    exact h.linkless (way ++ rest) target

end LiesPlain

/-! ### Two directories -/

namespace SameContent

variable {fs₁ fs₂ : FileSystem} {base₁ base₂ real : Location} {way : List String}

/-- **Directories with the same branches have the same content.** -/
theorem of_branch (h₁ : fs₁.LiesPlain base₁) (h₂ : fs₂.LiesPlain base₂) (hne₁ : base₁ ≠ [])
    (hne₂ : base₂ ≠ []) (h : fs₁.tree.branch base₁ = fs₂.tree.branch base₂)
    (hdenied : ∀ way, (∀ n ∈ way, IsName n) →
      fs₁.isDenied (.under base₁ way) = fs₂.isDenied (.under base₂ way)) :
    SameContent fs₁ fs₂ base₁ base₂ :=
  ⟨h₁, h₂, fun way => by rw [Tree.node?_append hne₁, Tree.node?_append hne₂, h], hdenied⟩

theorem symm (h : SameContent fs₁ fs₂ base₁ base₂) : SameContent fs₂ fs₁ base₂ base₁ :=
  ⟨h.right, h.left, fun way => (h.same way).symm, fun way hway => (h.denied way hway).symm⟩

/-- The content is the same when nothing is denied. -/
theorem opened (h : SameContent fs₁ fs₂ base₁ base₂) :
    SameContent fs₁.opened fs₂.opened base₁ base₂ :=
  ⟨⟨h.left.wellFormed, h.left.real, h.left.linkless⟩,
    ⟨h.right.wellFormed, h.right.real, h.right.linkless⟩, h.same, fun _ _ => rfl⟩

theorem hasDirectory (h : SameContent fs₁ fs₂ base₁ base₂) (way : List String) :
    fs₁.tree.hasDirectory (base₁ ++ way) = fs₂.tree.hasDirectory (base₂ ++ way) := by
  rw [Tree.hasDirectory, Tree.hasDirectory, h.same]

/-- **The same names stand in the same order.** -/
theorem names (h : SameContent fs₁ fs₂ base₁ base₂) (way : List String) :
    fs₁.tree.names (base₁ ++ way) = fs₂.tree.names (base₂ ++ way) := by
  refine StringSet.eq_of_ordered (StringSet.ordered _) (StringSet.ordered _) fun n => ?_
  have hmem : n ∈ fs₁.tree.names (base₁ ++ way) ↔ n ∈ fs₂.tree.names (base₂ ++ way) := by
    rw [Tree.mem_names, Tree.mem_names, List.append_assoc, List.append_assoc, h.same]
  exact hmem

/-- **A way without links below the one directory is one below the other.** -/
theorem isReal (h : SameContent fs₁ fs₂ base₁ base₂) {way : List String}
    (hreal : IsReal fs₁.tree (base₁ ++ way)) : IsReal fs₂.tree (base₂ ++ way) := by
  rcases List.eq_nil_or_concat way with rfl | ⟨init, n, rfl⟩
  · rw [List.append_nil]
    exact h.right.real
  · rw [List.concat_eq_append] at hreal ⊢
    have hinit : base₁ ++ init <+: base₁ ++ (init ++ [n]) := by simp
    have hdir := isReal h (hreal.above hinit)
    rw [← List.append_assoc] at hreal
    obtain ⟨hd, hname, node, hn, hplain⟩ := hreal.of_concat
    rw [h.hasDirectory] at hd
    rw [List.append_assoc, h.same, ← List.append_assoc] at hn
    rw [← List.append_assoc]
    exact .entry hdir hd hname hn hplain
termination_by way.length

theorem under (h : SameContent fs₁ fs₂ base₁ base₂) (hreal : IsReal fs₁.tree (base₁ ++ way)) :
    SameContent fs₁ fs₂ (base₁ ++ way) (base₂ ++ way) where
  left := h.left.under hreal
  right := h.right.under (h.isReal hreal)
  same := fun rest => by rw [List.append_assoc, List.append_assoc, h.same]
  denied := fun rest hrest => by
    have hway : ∀ n ∈ way ++ rest, IsName n := fun n hn =>
      (List.mem_append.mp hn).elim (fun hn => hreal.isName n (List.mem_append_right base₁ hn))
        (hrest n)
    simpa only [Path.under, List.append_assoc] using h.denied (way ++ rest) hway

/-- **A way below the one directory is found below the other**, if it is not too long there. -/
theorem locate (h : SameContent fs₁ fs₂ base₁ base₂) (hway : ∀ n ∈ way, IsName n)
    (hloc : fs₁.locate (.under base₁ way) = .ok real)
    (hshort : fs₂.locate (.under base₂ way) ≠ .error .nameTooLong) :
    real = base₁ ++ way ∧ fs₂.locate (.under base₂ way) = .ok (base₂ ++ way) := by
  obtain ⟨rfl, hreal⟩ := h.left.eq_of_locate hway hloc
  exact ⟨rfl, locate_under (h.isReal hreal) hshort⟩

/-- **The same stands at the end of a way**, if the way is too long in neither place. -/
theorem node? (h : SameContent fs₁ fs₂ base₁ base₂) (hway : ∀ n ∈ way, IsName n)
    (hshort₁ : fs₁.locate (.under base₁ way) ≠ .error .nameTooLong)
    (hshort₂ : fs₂.locate (.under base₂ way) ≠ .error .nameTooLong) :
    fs₁.node? (.under base₁ way) = fs₂.node? (.under base₂ way) := by
  cases h₁ : fs₁.locate (.under base₁ way) with
  | ok real =>
    obtain ⟨rfl, h₂⟩ := h.locate hway h₁ hshort₂
    rw [node?_of_locate h₁, node?_of_locate h₂, h.same]
  | error e =>
    cases h₂ : fs₂.locate (.under base₂ way) with
    | ok real =>
      obtain ⟨-, hfound⟩ := h.symm.locate hway h₂ hshort₁
      rw [h₁] at hfound
      cases hfound
    | error e' =>
      have he : e ≠ .nameTooLong := fun he => hshort₁ (he ▸ h₁)
      have he' : e' ≠ .nameTooLong := fun he => hshort₂ (he ▸ h₂)
      rw [node?_of_error h₁ he, node?_of_error h₂ he']

theorem isDirectory (h : SameContent fs₁ fs₂ base₁ base₂) (hway : ∀ n ∈ way, IsName n)
    (hshort₁ : fs₁.locate (.under base₁ way) ≠ .error .nameTooLong)
    (hshort₂ : fs₂.locate (.under base₂ way) ≠ .error .nameTooLong) :
    fs₁.isDirectory (.under base₁ way) = fs₂.isDirectory (.under base₂ way) := by
  unfold FileSystem.isDirectory
  rw [h.node? hway hshort₁ hshort₂]

theorem isFile (h : SameContent fs₁ fs₂ base₁ base₂) (hway : ∀ n ∈ way, IsName n)
    (hshort₁ : fs₁.locate (.under base₁ way) ≠ .error .nameTooLong)
    (hshort₂ : fs₂.locate (.under base₂ way) ≠ .error .nameTooLong) :
    fs₁.isFile (.under base₁ way) = fs₂.isFile (.under base₂ way) := by
  unfold FileSystem.isFile
  rw [h.node? hway hshort₁ hshort₂]

/-- **The same is read at the end of a way.** -/
theorem read (h : SameContent fs₁ fs₂ base₁ base₂)
    (h₁ : fs₁.locate (.under base₁ way) = .ok (base₁ ++ way))
    (h₂ : fs₂.locate (.under base₂ way) = .ok (base₂ ++ way)) :
    fs₁.read (.under base₁ way) = fs₂.read (.under base₂ way) := by
  unfold FileSystem.read
  rw [h.denied way (h.left.isName_of_locate h₁), h₁, h₂]
  simp only [h.same]

end SameContent

end FileSystem

end Unimported
