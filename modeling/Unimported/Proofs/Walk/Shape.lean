import Unimported.Proofs.FileSystem.Shape
import Unimported.Proofs.Walk.Linkless

/-!
# Walks that see the same

A walk asks which entries are directories, by what canonical paths these are told, and what is in
them, and nothing else.  So two machines on which the errands of a walk have the same answers have
the same walk.  In particular, files that may not be read are walked past like files that are empty:
no directory is denied by denying files.  And how deep a walk may go makes no difference to one that
comes to nothing deeper.

## Main definitions

* `Walk.AnsweredAlike` — two machines answer an errand the same.
* `Walk.Errand.Rooted` — an errand on a path from the root, and a directory if it is to be entered.
* `FileSystem.goingTo` — a machine whose walks go to another depth.

## Main results

* `Walk.walk_congr` — **a walk is told by the answers to its errands.**
* `Walk.ofRoot_congr` — machines of the same shape have the same walks.
* `Walk.traverse_deny`, `Walk.traverse_emptied` — where files are denied a walk is the one where they
  are not, and the one where they are empty.
* `Walk.ofRoot_goingTo` — a walk that comes to nothing too deep does not depend on the depth.
-/

namespace Unimported

/-- A machine whose walks go to another depth. -/
def FileSystem.goingTo (fs : FileSystem) (depth : Nat) : FileSystem := { fs with deepest := depth }

namespace Walk

variable {fs fs' : FileSystem} {skip : List String} {deepest deepest' : Nat} {seen : List Path}
  {todo : List Errand} {root : Path} {D : List Path}

/-- A directory is told by the same path on two machines, and the same is in it. -/
def EnteredAlike (fs fs' : FileSystem) (deepest deepest' : Nat) (dir : Path) : Prop :=
  identify fs deepest dir = identify fs' deepest' dir ∧ fs.list dir = fs'.list dir

/-- Two machines answer an errand the same. -/
def AnsweredAlike (fs fs' : FileSystem) (skip : List String) (deepest deepest' : Nat) :
    Errand → Prop
  | .enter dir => EnteredAlike fs fs' deepest deepest' dir
  | .look entry => fs.isDirectory entry = fs'.isDirectory entry ∧
      (fs.isDirectory entry = .ok true → isPassedBy skip entry.name = false →
        EnteredAlike fs fs' deepest deepest' entry)

/-- **A walk is told by the answers to its errands**, those that it begins with and those that it
meets. -/
theorem walk_congr (htodo : ∀ e ∈ todo, AnsweredAlike fs fs' skip deepest deepest' e)
    (hlisted : ∀ l ∈ (walk fs skip deepest seen todo).listings, ∀ e ∈ errands l,
      AnsweredAlike fs fs' skip deepest deepest' e) :
    walk fs' skip deepest' seen todo = walk fs skip deepest seen todo := by
  fun_induction walk fs skip deepest seen todo with
  | case1 => rw [walk]
  | case2 seen entry rest fault hd =>
    rw [walk_look, ← (htodo _ List.mem_cons_self).1, hd]
  | case3 seen entry rest hd hp ih =>
    rw [walk_look, ← (htodo _ List.mem_cons_self).1, hd]
    simp only [hp, if_true]
    exact ih (fun e he => htodo e (List.mem_cons_of_mem _ he)) hlisted
  | case4 seen entry rest hd hp ih =>
    obtain ⟨hsame, henter⟩ := htodo _ List.mem_cons_self
    rw [walk_look, ← hsame, hd]
    simp only [hp]
    refine ih (fun e he => ?_) hlisted
    rcases List.mem_cons.mp he with rfl | he
    · exact henter hd (by simpa using hp)
    · exact htodo e (List.mem_cons_of_mem _ he)
  | case5 seen entry rest hd ih =>
    rw [walk_look, ← (htodo _ List.mem_cons_self).1, hd]
    have hrest := ih (fun e he => htodo e (List.mem_cons_of_mem _ he)) hlisted
    exact congrArg (Trail.cons (.found entry)) hrest
  | case6 seen dir rest fault hi =>
    rw [(htodo _ List.mem_cons_self).1] at hi
    rw [walk_enter_fault hi]
  | case7 seen dir rest real hi hs ih =>
    rw [(htodo _ List.mem_cons_self).1] at hi
    rw [walk_enter_seen hi hs]
    exact ih (fun e he => htodo e (List.mem_cons_of_mem _ he)) hlisted
  | case8 seen dir rest real hi hs e hl =>
    obtain ⟨hsame, hlist⟩ := htodo _ List.mem_cons_self
    rw [hsame] at hi
    rw [walk_enter_unlistable hi hs (hlist ▸ hl)]
  | case9 seen dir rest real hi hs l hl ih =>
    obtain ⟨hsame, hlist⟩ := htodo _ List.mem_cons_self
    rw [hsame] at hi
    rw [walk_enter_listed hi hs (hlist ▸ hl)]
    rw [Trail.listings_listed] at hlisted
    refine congrArg (Trail.cons (.listed l)) (ih (fun e he => ?_) fun l' hl' =>
      hlisted l' (List.mem_cons_of_mem l hl'))
    rcases List.mem_append.mp he with he | he
    · exact hlisted l List.mem_cons_self e he
    · exact htodo e (List.mem_cons_of_mem _ he)

/-! ### Files that are denied -/

/-- An errand on a path from the root; what is to be entered is a directory. -/
def Errand.Rooted (fs : FileSystem) : Errand → Prop
  | .enter dir => dir.IsRooted ∧ fs.isDirectory dir = .ok true
  | .look entry => entry.IsRooted

theorem handedOn_rooted (hwf : fs.tree.WellFormed) (skip : List String) :
    HandedOn fs skip (Errand.Rooted fs) where
  enter := fun _ hentry hd _ => ⟨hentry, hd⟩
  errands := by
    rintro dir l ⟨hdir, -⟩ hl e he
    obtain ⟨-, -, hnames, hpath⟩ := FileSystem.list_eq_ok hl
    obtain ⟨n, hn, rfl⟩ := List.mem_map.mp he
    have hname := hwf.isName (hnames ▸ hn)
    rw [hpath]
    refine ⟨hdir.anchor, fun s hs => ?_⟩
    rcases List.mem_append.mp hs with hs | hs
    · exact hdir.segments s hs
    · exact List.mem_singleton.mp hs ▸ hname.isSegment

/-- **Walks on machines of the same shape are the same** where the same directories are denied. -/
theorem ofRoot_congr (hwf : fs.tree.WellFormed) (hshape : fs.SameShape fs')
    (hopen : ∀ dir, dir.IsRooted → fs.isDirectory dir = .ok true →
      fs.isDenied dir = fs'.isDenied dir)
    (hroot : root.IsRooted) (hdir : fs.isDirectory root = .ok true) (skip : List String) :
    ofRoot fs' skip root = ofRoot fs skip root := by
  have hhanded := handedOn_rooted hwf skip
  have hstart : ∀ e ∈ [Errand.enter root], Errand.Rooted fs e := fun e he => by
    rw [List.mem_singleton.mp he]
    exact ⟨hroot, hdir⟩
  have halike : ∀ deepest e, Errand.Rooted fs e → AnsweredAlike fs fs' skip deepest deepest e := by
    have henter : ∀ deepest dir, Errand.Rooted fs (.enter dir) →
        EnteredAlike fs fs' deepest deepest dir := by
      rintro deepest dir ⟨hrooted, hd⟩
      exact ⟨by rw [identify, identify, hshape.resolve], hshape.list (hopen dir hrooted hd)⟩
    intro deepest e he
    cases e with
    | enter dir => exact henter deepest dir he
    | look entry =>
      exact ⟨hshape.isDirectory entry, fun hd hp => henter deepest _ (hhanded.enter entry he hd hp)⟩
  unfold ofRoot
  rw [← hshape.deepest]
  refine walk_congr (fun e he => halike _ e (hstart e he)) fun l hl e he => ?_
  obtain ⟨hrooted, hlist⟩ := hhanded.stages [] _ hstart _ (Trail.mem_listings.mp hl)
  exact halike _ e (hhanded.errands _ l hrooted hlist e he)

theorem traverse_congr (hwf : fs.tree.WellFormed) (hshape : fs.SameShape fs')
    (hopen : ∀ dir, dir.IsRooted → fs.isDirectory dir = .ok true →
      fs.isDenied dir = fs'.isDenied dir)
    (hroot : root.IsRooted) (hdir : fs.isDirectory root = .ok true) (skip : Value) :
    traverse fs skip root = traverse fs' skip root := by
  unfold traverse trail
  simp only [ofRoot_congr hwf hshape hopen hroot hdir]

/-- **Files that are denied are walked past** as if they were not. -/
theorem traverse_deny (hwf : fs.tree.WellFormed) (hlinks : fs.tree.Linkless)
    (hD : fs.AreFiles D) (hroot : root.IsRooted) (hdir : fs.isDirectory root = .ok true)
    (skip : Value) : traverse (fs.deny D) skip root = traverse fs.opened skip root := by
  have hwf' : (fs.deny D).tree.WellFormed := hwf
  have hshape : FileSystem.SameShape (fs.deny D) fs.opened := ⟨fun _ => rfl, rfl, rfl, rfl⟩
  refine traverse_congr hwf' hshape (fun dir hrooted hd => ?_) hroot hdir skip
  exact FileSystem.isDenied_deny_of_isDirectory hlinks hD hrooted hd

/-- **Where files are denied, a walk is the one where they are empty.** -/
theorem traverse_emptied (hwf : fs.tree.WellFormed) (hlinks : fs.tree.Linkless)
    (hD : fs.AreFiles D) (hroot : root.IsRooted) (hdir : fs.isDirectory root = .ok true)
    (skip : Value) : traverse (fs.deny D) skip root = traverse (fs.emptied D) skip root := by
  have hwf' : (fs.deny D).tree.WellFormed := hwf
  refine traverse_congr hwf' (FileSystem.sameShape_emptied fs D) (fun dir hrooted hd => ?_) hroot hdir
    skip
  exact FileSystem.isDenied_deny_of_isDirectory hlinks hD hrooted hd

/-! ### Other depths -/

/-- A directory that is not too deep for either of two walks is entered alike. -/
theorem enteredAlike_goingTo {dir : Path} {d : Nat} (h : dir.segments.length ≤ deepest)
    (h' : dir.segments.length ≤ deepest') :
    EnteredAlike fs (fs.goingTo d) deepest deepest' dir := by
  have hsame : identify fs deepest dir = identify (fs.goingTo d) deepest' dir := by
    rw [identify, identify, if_neg (Nat.not_lt.mpr h), if_neg (Nat.not_lt.mpr h')]
    rfl
  exact ⟨hsame, rfl⟩

/-- **How deep a walk may go makes no difference** to one that comes to nothing deeper. -/
theorem ofRoot_goingTo {d : Nat} (hdepth : ∀ dir, ComesTo fs skip root dir →
      dir.segments.length ≤ root.segments.length + min fs.deepest d) :
    ofRoot (fs.goingTo d) skip root = ofRoot fs skip root := by
  have henter : ∀ dir, ComesTo fs skip root dir → EnteredAlike fs (fs.goingTo d)
      (root.segments.length + fs.deepest) (root.segments.length + d) dir := by
    intro dir hdir
    have := hdepth dir hdir
    exact enteredAlike_goingTo (by omega) (by omega)
  refine walk_congr (fun e he => ?_) fun l hl e he => ?_
  · rw [List.mem_singleton.mp he]
    exact henter root .root
  · obtain ⟨n, hn, rfl⟩ := List.mem_map.mp he
    refine ⟨rfl, fun hd hp => henter _ (.entry hl hn hd ?_)⟩
    rwa [Path.name_child] at hp

end Walk

end Unimported
