import Unimported.Proofs.Tree.Names
import Unimported.Walk

/-!
# What every stage of a walk has in common

A property of errands that is handed on from a directory to its entries, and from an entry to the
directory that it is, holds of everything that a walk lists or finds.  What is handed on first of
all is the way from the root: names that are not passed by.

## Main definitions

* `Walk.HandedOn` — a property that errands hand on.
* `Walk.Stage.Has` — a property of the errand behind a stage.
* `Walk.Errand.Below` — an errand below a root, reached by names that are not passed by.

## Main results

* `Walk.walk_look`, `Walk.walk_enter_listed` and others — one step of a walk.
* `Walk.HandedOn.stages` — what holds of the errands at the start holds of every stage.
* `Walk.below_stages` — every stage lies below the root.
-/

namespace Unimported.Walk

open Path (IsName)

variable {fs : FileSystem} {skip : List String} {deepest : Nat}

/-! ### Steps of a walk -/

/-- One step of a walk at an entry. -/
theorem walk_look (fs : FileSystem) (skip : List String) (deepest : Nat) (seen : List Path)
    (entry : Path) (rest : List Errand) :
    walk fs skip deepest seen (.look entry :: rest) =
      match fs.isDirectory entry with
      | .error fault => ⟨[], some (.fault fault)⟩
      | .ok true =>
          if isPassedBy skip entry.name then walk fs skip deepest seen rest
          else walk fs skip deepest seen (.enter entry :: rest)
      | .ok false => (walk fs skip deepest seen rest).cons (.found entry) :=
  (walk.eq_def fs skip deepest seen (.look entry :: rest)).trans rfl

section Enter

variable {seen : List Path} {dir real : Path} {rest : List Errand}

/-- A directory that cannot be told from others stops a walk. -/
theorem walk_enter_fault {fault : Fault} (hi : identify fs deepest dir = .error fault) :
    walk fs skip deepest seen (.enter dir :: rest) = ⟨[], some (.fault fault)⟩ := by
  rw [walk]
  split <;> simp_all

/-- A directory that was seen is left alone. -/
theorem walk_enter_seen (hi : identify fs deepest dir = .ok real) (hs : real ∈ seen) :
    walk fs skip deepest seen (.enter dir :: rest) = walk fs skip deepest seen rest := by
  rw [walk]
  split <;> simp_all

/-- A directory that cannot be listed stops a walk. -/
theorem walk_enter_unlistable {e : AccessError} (hi : identify fs deepest dir = .ok real)
    (hs : real ∉ seen) (hl : fs.list dir = .error e) :
    walk fs skip deepest seen (.enter dir :: rest) = ⟨[], some (unlistable dir e)⟩ := by
  rw [walk]
  split
  · simp_all
  · split
    · simp_all
    · split <;> simp_all

/-- Any other directory is listed, and what is in it comes before all else. -/
theorem walk_enter_listed {l : Listing} (hi : identify fs deepest dir = .ok real)
    (hs : real ∉ seen) (hl : fs.list dir = .ok l) :
    walk fs skip deepest seen (.enter dir :: rest) =
      (walk fs skip deepest (real :: seen) (errands l ++ rest)).cons (.listed l) := by
  rw [walk]
  split
  · simp_all
  · split
    · simp_all
    · split <;> simp_all

end Enter

/-! ### Properties that are handed on -/

/-- A property of errands that is handed on to the errands they lead to. -/
structure HandedOn (fs : FileSystem) (skip : List String) (P : Errand → Prop) : Prop where
  enter : ∀ entry, P (.look entry) → fs.isDirectory entry = .ok true →
    isPassedBy skip entry.name = false → P (.enter entry)
  errands : ∀ dir l, P (.enter dir) → fs.list dir = .ok l → ∀ e ∈ errands l, P e

/-- The errand behind a stage has a property, and the stage is what came of it. -/
def Stage.Has (fs : FileSystem) (P : Errand → Prop) : Stage → Prop
  | .listed l => P (.enter l.path) ∧ fs.list l.path = .ok l
  | .found file => P (.look file) ∧ fs.isDirectory file = .ok false

@[simp] theorem Trail.files_found (file : Path) (t : Trail) :
    (t.cons (.found file)).files = file :: t.files := rfl

@[simp] theorem Trail.files_listed (l : Listing) (t : Trail) :
    (t.cons (.listed l)).files = t.files := rfl

@[simp] theorem Trail.listings_found (file : Path) (t : Trail) :
    (t.cons (.found file)).listings = t.listings := rfl

@[simp] theorem Trail.listings_listed (l : Listing) (t : Trail) :
    (t.cons (.listed l)).listings = l :: t.listings := rfl

/-- **What holds of the errands at the start holds of every stage.** -/
theorem HandedOn.stages {P : Errand → Prop} (h : HandedOn fs skip P) (seen : List Path)
    (todo : List Errand) (htodo : ∀ e ∈ todo, P e) :
    ∀ s ∈ (walk fs skip deepest seen todo).stages, s.Has fs P := by
  fun_induction walk fs skip deepest seen todo with
  | case1 => simp
  | case2 => simp
  | case3 seen entry rest hd hp ih => exact ih fun e he => htodo e (List.mem_cons_of_mem _ he)
  | case4 seen entry rest hd hp ih =>
    -- the entry is a directory that is not passed by
    refine ih fun e he => ?_
    rcases List.mem_cons.mp he with rfl | he
    · exact h.enter entry (htodo _ List.mem_cons_self) hd (by simpa using hp)
    · exact htodo e (List.mem_cons_of_mem _ he)
  | case5 seen entry rest hd ih =>
    intro s hs
    rcases List.mem_cons.mp hs with rfl | hs
    · exact ⟨htodo _ List.mem_cons_self, hd⟩
    · exact ih (fun e he => htodo e (List.mem_cons_of_mem _ he)) s hs
  | case6 => simp
  | case7 seen dir rest real hi hs ih => exact ih fun e he => htodo e (List.mem_cons_of_mem _ he)
  | case8 => simp
  | case9 seen dir rest real hi hs l hl ih =>
    have hdir := htodo _ List.mem_cons_self
    obtain ⟨-, -, -, hpath⟩ := FileSystem.list_eq_ok hl
    intro s hs
    rcases List.mem_cons.mp hs with rfl | hs
    · exact ⟨hpath ▸ hdir, hpath ▸ hl⟩
    · refine ih (fun e he => ?_) s hs
      rcases List.mem_append.mp he with he | he
      · exact h.errands dir l hdir hl e he
      · exact htodo e (List.mem_cons_of_mem _ he)

theorem Trail.mem_files {t : Trail} {file : Path} : file ∈ t.files ↔ .found file ∈ t.stages := by
  unfold Trail.files
  rw [List.mem_filterMap]
  constructor
  · rintro ⟨s, hs, he⟩
    cases s with
    | listed l => cases he
    | found f => cases he; exact hs
  · exact fun h => ⟨.found file, h, rfl⟩

theorem Trail.mem_listings {t : Trail} {l : Listing} : l ∈ t.listings ↔ .listed l ∈ t.stages := by
  unfold Trail.listings
  rw [List.mem_filterMap]
  constructor
  · rintro ⟨s, hs, he⟩
    cases s with
    | listed l => cases he; exact hs
    | found f => cases he
  · exact fun h => ⟨.listed l, h, rfl⟩

/-- What a walk lists is what listing the directory gives. -/
theorem list_of_mem_listings {seen : List Path} {todo : List Errand} {l : Listing}
    (h : l ∈ (walk fs skip deepest seen todo).listings) : fs.list l.path = .ok l :=
  have htrivial : HandedOn fs skip fun _ => True :=
    ⟨fun _ _ _ _ => trivial, fun _ _ _ _ _ _ => trivial⟩
  (htrivial.stages seen todo (fun _ _ => trivial) _ (Trail.mem_listings.mp h)).2

/-! ### The way from the root -/

/-- Names that are not passed by. -/
def IsWay (skip : List String) (way : List String) : Prop :=
  ∀ n ∈ way, IsName n ∧ isPassedBy skip n = false

/-- An errand below a root: a directory is reached by names that are not passed by, and an entry
has a name in such a directory. -/
def Errand.Below (skip : List String) (root : Path) : Errand → Prop
  | .enter dir => ∃ way, IsWay skip way ∧ dir = ⟨root.anchor, root.segments ++ way⟩
  | .look entry => ∃ way name, IsWay skip way ∧ IsName name ∧
      entry = Path.child ⟨root.anchor, root.segments ++ way⟩ name

theorem handedOn_below (hwf : fs.tree.WellFormed) (root : Path) :
    HandedOn fs skip (Errand.Below skip root) where
  enter := by
    rintro entry ⟨way, name, hway, hname, rfl⟩ - hp
    refine ⟨way ++ [name], ?_, ?_⟩
    · intro n hn
      rcases List.mem_append.mp hn with hn | hn
      · exact hway n hn
      · rw [List.mem_singleton.mp hn]
        exact ⟨hname, by simpa using hp⟩
    · simp [Path.child]
  errands := by
    rintro dir l ⟨way, hway, rfl⟩ hl e he
    obtain ⟨-, -, hnames, hpath⟩ := FileSystem.list_eq_ok hl
    obtain ⟨name, hname, rfl⟩ := List.mem_map.mp he
    exact ⟨way, name, hway, hwf.isName (hnames ▸ hname), by rw [hpath]⟩

/-- **Every stage of a walk lies below its root.** -/
theorem below_stages (hwf : fs.tree.WellFormed) (skip : List String) (root : Path) :
    ∀ s ∈ (ofRoot fs skip root).stages, s.Has fs (Errand.Below skip root) := by
  refine (handedOn_below hwf root).stages [] [.enter root] fun e he => ?_
  rw [List.mem_singleton.mp he]
  exact ⟨[], by simp [IsWay], by simp⟩

/-- A file that a walk finds has a name in a directory below the root. -/
theorem below_of_mem_files (hwf : fs.tree.WellFormed) {root file : Path}
    (h : file ∈ (ofRoot fs skip root).files) :
    ∃ way name, IsWay skip way ∧ IsName name ∧
      file = Path.child ⟨root.anchor, root.segments ++ way⟩ name :=
  (below_stages hwf skip root _ (Trail.mem_files.mp h)).1

/-! ### Walks that are not stopped -/

/-- What a walk that is not stopped gives. -/
theorem traverse_eq_ok {skip : Value} {root : Path} {files : List Path}
    (h : (traverse fs skip root).outcome = .ok files) :
    ∃ names, skipNames skip = .ok names ∧ (ofRoot fs names root).stopped = none ∧
      (ofRoot fs names root).files = files := by
  unfold traverse trail Trail.traced at h
  split at h
  · cases h
  · next names hn =>
    refine ⟨names, hn, ?_⟩
    simp only at h
    split at h
    · next hs => exact ⟨hs, Except.ok.inj h⟩
    · cases h

end Unimported.Walk
