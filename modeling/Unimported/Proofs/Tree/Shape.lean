import Unimported.Proofs.Tree.Canonical

/-!
# Trees of the same shape

What a file holds makes no difference to where paths lead.  So trees that differ only in what their
files hold have the same directories with the same names in them, and every path is followed and
made canonical alike, also when it leads nowhere.

## Main definitions

* `Node.shape` — a node, whatever a file holds.
* `Tree.SameShape` — trees with nodes of the same shape everywhere.
* `Tree.emptied` — a tree in which some files hold nothing.

## Main results

* `Tree.SameShape.names`, `Tree.SameShape.followAtMost`, `Tree.SameShape.canonical` — **in trees of
  the same shape, the same names stand and paths lead alike.**
* `Tree.node?_emptied`, `Tree.sameShape_emptied` — emptied files, and nothing else is different.
-/

namespace Unimported

/-- A node without what a file holds. -/
def Node.shape : Node → Node
  | .file _ => .file []
  | n => n

namespace Tree

open Path (IsName)

/-- Two trees differ at most in what files hold. -/
def SameShape (t t' : Tree) : Prop :=
  ∀ loc, (t.node? loc).map Node.shape = (t'.node? loc).map Node.shape

namespace SameShape

variable {t t' : Tree} {loc : Location}

/-- What stands at a location of two trees: nothing, two files, or the same. -/
theorem cases (h : SameShape t t') (loc : Location) :
    (∃ bytes bytes', t.node? loc = some (.file bytes) ∧ t'.node? loc = some (.file bytes')) ∨
      t.node? loc = t'.node? loc := by
  have hloc := h loc
  cases hn : t.node? loc with
  | none =>
    rw [hn] at hloc
    exact Or.inr (Option.map_eq_none_iff.mp hloc.symm).symm
  | some n =>
    rw [hn] at hloc
    obtain ⟨n', hn', hshape⟩ := Option.map_eq_some_iff.mp hloc.symm
    cases n with
    | file bytes =>
      cases n' with
      | file bytes' => exact Or.inl ⟨bytes, bytes', rfl, hn'⟩
      | directory => cases hshape
      | link target => cases hshape
    | directory =>
      cases n' with
      | file bytes' => cases hshape
      | directory => exact Or.inr hn'.symm
      | link target => cases hshape
    | link target =>
      cases n' with
      | file bytes' => cases hshape
      | directory => cases hshape
      | link target' =>
        obtain rfl : target' = target := Node.link.inj hshape
        exact Or.inr hn'.symm

theorem hasDirectory (h : SameShape t t') (loc : Location) :
    t.hasDirectory loc = t'.hasDirectory loc := by
  unfold Tree.hasDirectory
  rcases h.cases loc with ⟨bytes, bytes', hn, hn'⟩ | heq
  · rw [hn, hn']
    rfl
  · rw [heq]

/-- **The same names stand in the same order.** -/
theorem names (h : SameShape t t') (loc : Location) : t.names loc = t'.names loc := by
  refine StringSet.eq_of_ordered (StringSet.ordered _) (StringSet.ordered _) fun n => ?_
  have hmem : n ∈ t.names loc ↔ n ∈ t'.names loc := by
    rw [mem_names, mem_names, ← Option.isSome_map, h, Option.isSome_map]
  exact hmem

/-! ### Paths -/

/-- Steps are taken alike if links are followed alike. -/
theorem descend (h : SameShape t t')
    {onLink onLink' : Location → List String → Except AccessError Location}
    (hlink : ∀ here path, onLink here path = onLink' here path) (aim : Aim) (here : Location)
    (path : List String) : t.descend aim onLink here path = t'.descend aim onLink' here path := by
  induction path generalizing here with
  | nil => rfl
  | cons step rest ih =>
    rw [Tree.descend, Tree.descend, h.hasDirectory here, ih here, ih here.dropLast,
      ih (here ++ [step])]
    rcases h.cases (here ++ [step]) with ⟨bytes, bytes', hn, hn'⟩ | heq
    · rw [hn, hn']
    · rw [heq]
      simp only [hlink]

/-- **Paths are followed alike.** -/
theorem followAtMost (h : SameShape t t') (aim : Aim) (links : Nat) (here : Location)
    (path : List String) :
    t.followAtMost aim links here path = t'.followAtMost aim links here path := by
  induction links generalizing here path with
  | zero => exact h.descend (fun _ _ => rfl) aim here path
  | succ links ih => exact h.descend (fun here path => ih here path) aim here path

/-- Pieces are made canonical alike if the targets of links are. -/
theorem trace (h : SameShape t t') (longest : Option Nat) (cwd : Location)
    {onLink onLink' : Resolved → Path → List String → Progress}
    (hlink : ∀ links here path, onLink links here path = onLink' links here path)
    (links : Resolved) (here : Path) (path : List String) :
    t.trace longest cwd onLink links here path = t'.trace longest cwd onLink' links here path := by
  induction path generalizing links here with
  | nil => rfl
  | cons piece rest ih =>
    rw [Tree.trace, Tree.trace]
    simp only [ih, hlink]
    rcases h.cases (locationOf cwd (here.child piece)) with ⟨bytes, bytes', hn, hn'⟩ | heq
    · simp only [hn, hn']
    · rw [heq]

/-- **Paths are made canonical alike.** -/
theorem canonical (h : SameShape t t') (longest : Option Nat) (cwd : Location) (p : Path) :
    t.canonical longest cwd p = t'.canonical longest cwd p := by
  have htrace : ∀ depth links here path,
      t.traceAtMost longest cwd depth links here path =
        t'.traceAtMost longest cwd depth links here path := by
    intro depth
    induction depth with
    | zero => exact h.trace longest cwd fun _ _ _ => rfl
    | succ depth ih => exact h.trace longest cwd ih
  unfold Tree.canonical
  simp only [htrace]

end SameShape

/-! ### Emptied files -/

/-- A node in which a file holds nothing, if it is to be emptied. -/
def emptiedNode (locs : List Location) (loc : Location) (n : Node) : Node :=
  if locs.contains loc then n.shape else n

/-- The tree in which the files at some locations hold nothing. -/
def emptied (t : Tree) (locs : List Location) : Tree :=
  ⟨t.entries.map fun e => { e with node := emptiedNode locs e.place e.node }⟩

/-- **What stands at a location when files were emptied** is what stood there, without what it held
if it is one of the files. -/
theorem node?_emptied (t : Tree) (locs : List Location) (loc : Location) :
    (t.emptied locs).node? loc = (t.node? loc).map (emptiedNode locs loc) := by
  by_cases hne : loc = []
  · subst hne
    rw [node?_root, node?_root, Option.map_some, emptiedNode]
    split
    · rfl
    · rfl
  · simp only [node?, if_neg hne, entry?_eq, emptied, List.find?_map, Option.map_map]
    cases hfind : t.entries.find? fun e => decide (e.place = loc) with
    | none =>
      have hfind' : t.entries.find? ((fun e : Entry => decide (e.place = loc)) ∘
          fun e => { e with node := emptiedNode locs e.place e.node }) = none := hfind
      rw [hfind']
      rfl
    | some e =>
      have hfind' : t.entries.find? ((fun e : Entry => decide (e.place = loc)) ∘
          fun e => { e with node := emptiedNode locs e.place e.node }) = some e := hfind
      have hplace : e.place = loc := by simpa using List.find?_some hfind
      rw [hfind', Option.map_some, Option.map_some, ← hplace]
      rfl

theorem shape_shape (n : Node) : n.shape.shape = n.shape := by cases n <;> rfl

/-- **Nothing is different but what files hold.** -/
theorem sameShape_emptied (t : Tree) (locs : List Location) : SameShape t (t.emptied locs) := by
  intro loc
  rw [node?_emptied, Option.map_map]
  congr 1
  funext n
  rw [Function.comp_apply, emptiedNode]
  split
  · exact (shape_shape n).symm
  · rfl

end Tree

end Unimported
