import Unimported.Proofs.Walk.Stages

/-!
# The order of a walk

A walk goes through a directory entry by entry, and through an entry as a whole before the next one.
So of two files the one comes first whose path has the smaller name where the paths part.  No path
comes before itself, and therefore no file is found twice.

## Main definitions

* `Path.Precedes` — one path parts from another with a smaller name.
* `Walk.Errand.path` — the path of an errand.

## Main results

* `Path.Precedes.mono` — what lies below paths is in the order of the paths.
* `Walk.pairwise_errands` — the errands in a directory are in order.
* `Walk.pairwise_files` — **the files of a walk are in order.**
-/

namespace Unimported

/-- A path parts from another with a smaller name. -/
def Path.Precedes (p q : Path) : Prop :=
  ∃ front x y u v, p.segments = front ++ x :: u ∧ q.segments = front ++ y :: v ∧ x < y

/-- What lies below two paths is in the order of the paths. -/
theorem Path.Precedes.mono {p q p' q' : Path} (h : p.Precedes q)
    (hp : p.segments <+: p'.segments) (hq : q.segments <+: q'.segments) : p'.Precedes q' := by
  obtain ⟨front, x, y, u, v, hu, hv, hlt⟩ := h
  obtain ⟨u', hu'⟩ := hp
  obtain ⟨v', hv'⟩ := hq
  refine ⟨front, x, y, u ++ u', v ++ v', ?_, ?_, hlt⟩
  · rw [← hu', hu, List.append_assoc, List.cons_append]
  · rw [← hv', hv, List.append_assoc, List.cons_append]

theorem Path.Precedes.ne {p q : Path} (h : p.Precedes q) : p ≠ q := by
  obtain ⟨front, x, y, u, v, hu, hv, hlt⟩ := h
  rintro rfl
  rw [hu] at hv
  obtain ⟨rfl, -⟩ := List.cons.inj (List.append_cancel_left hv)
  exact String.lt_irrefl x hlt

/-- The segments of paths in order are in order. -/
theorem Path.Precedes.lt {p q : Path} (h : p.Precedes q) : p.segments < q.segments := by
  obtain ⟨front, x, y, u, v, hu, hv, hlt⟩ := h
  rw [hu, hv]
  exact List.append_left_lt (List.cons_lt_cons_iff.mpr (Or.inl hlt))

theorem Path.Precedes.asymm {p q : Path} (h : p.Precedes q) : ¬ q.Precedes p :=
  fun hback => List.lt_asymm h.lt hback.lt

theorem Path.Precedes.child {n n' : String} (dir : Path) (h : n < n') :
    (dir.child n).Precedes (dir.child n') :=
  ⟨dir.segments, n, n', [], [], rfl, rfl, h⟩

theorem Tree.pairwise_names (t : Tree) (loc : Location) : (t.names loc).Pairwise (· < ·) :=
  (StringSet.ofList _).ordered

namespace Walk

variable {fs : FileSystem} {skip : List String} {deepest : Nat}

/-- The path of an errand. -/
def Errand.path : Errand → Path
  | .enter dir => dir
  | .look entry => entry

/-- Errands are in the order of their paths. -/
def Errand.Precedes (e e' : Errand) : Prop := e.path.Precedes e'.path

/-- The errands in a directory are in the order of its names. -/
theorem pairwise_errands {dir : Path} {l : Listing} (h : fs.list dir = .ok l) :
    (errands l).Pairwise Errand.Precedes := by
  obtain ⟨-, -, hnames, -⟩ := FileSystem.list_eq_ok h
  unfold errands
  rw [List.pairwise_map, hnames]
  exact (fs.tree.pairwise_names l.real).imp fun hlt => Path.Precedes.child l.path hlt

theorem prefix_of_mem_errands {dir : Path} {l : Listing} (h : fs.list dir = .ok l) {e : Errand}
    (he : e ∈ errands l) : dir.segments <+: e.path.segments := by
  obtain ⟨-, -, -, hpath⟩ := FileSystem.list_eq_ok h
  obtain ⟨n, -, rfl⟩ := List.mem_map.mp he
  rw [← hpath]
  exact ⟨[n], rfl⟩

/-- **The files of a walk are in order** if the errands are, and each lies at or below one. -/
theorem pairwise_files (seen : List Path) (todo : List Errand)
    (htodo : todo.Pairwise Errand.Precedes) :
    (walk fs skip deepest seen todo).files.Pairwise Path.Precedes ∧
      ∀ f ∈ (walk fs skip deepest seen todo).files, ∃ e ∈ todo, e.path.segments <+: f.segments := by
  fun_induction walk fs skip deepest seen todo with
  | case1 => exact ⟨.nil, fun f hf => by cases hf⟩
  | case2 => exact ⟨.nil, fun f hf => by cases hf⟩
  | case3 seen entry rest hd hp ih =>
    obtain ⟨hpair, hbelow⟩ := ih (List.pairwise_cons.mp htodo).2
    refine ⟨hpair, fun f hf => ?_⟩
    obtain ⟨e, he, hf⟩ := hbelow f hf
    exact ⟨e, List.mem_cons_of_mem _ he, hf⟩
  | case4 seen entry rest hd hp ih =>
    -- the errand changes, its path does not
    obtain ⟨hfirst, hrest⟩ := List.pairwise_cons.mp htodo
    obtain ⟨hpair, hbelow⟩ := ih (List.pairwise_cons.mpr ⟨hfirst, hrest⟩)
    refine ⟨hpair, fun f hf => ?_⟩
    obtain ⟨e, he, hf⟩ := hbelow f hf
    rcases List.mem_cons.mp he with rfl | he
    · exact ⟨.look entry, List.mem_cons_self, hf⟩
    · exact ⟨e, List.mem_cons_of_mem _ he, hf⟩
  | case5 seen entry rest hd ih =>
    obtain ⟨hfirst, hrest⟩ := List.pairwise_cons.mp htodo
    obtain ⟨hpair, hbelow⟩ := ih hrest
    rw [Trail.files_found]
    refine ⟨List.pairwise_cons.mpr ⟨fun f hf => ?_, hpair⟩, fun f hf => ?_⟩
    · obtain ⟨e, he, hf⟩ := hbelow f hf
      exact (hfirst e he).mono (List.prefix_refl _) hf
    · rcases List.mem_cons.mp hf with rfl | hf
      · exact ⟨.look f, List.mem_cons_self, List.prefix_refl _⟩
      · obtain ⟨e, he, hf⟩ := hbelow f hf
        exact ⟨e, List.mem_cons_of_mem _ he, hf⟩
  | case6 => exact ⟨.nil, fun f hf => by cases hf⟩
  | case7 seen dir rest real hi hs ih =>
    obtain ⟨hpair, hbelow⟩ := ih (List.pairwise_cons.mp htodo).2
    refine ⟨hpair, fun f hf => ?_⟩
    obtain ⟨e, he, hf⟩ := hbelow f hf
    exact ⟨e, List.mem_cons_of_mem _ he, hf⟩
  | case8 => exact ⟨.nil, fun f hf => by cases hf⟩
  | case9 seen dir rest real hi hs l hl ih =>
    obtain ⟨hfirst, hrest⟩ := List.pairwise_cons.mp htodo
    have hall : (errands l ++ rest).Pairwise Errand.Precedes := by
      refine List.pairwise_append.mpr ⟨pairwise_errands hl, hrest, fun e he e' he' => ?_⟩
      exact (hfirst e' he').mono (prefix_of_mem_errands hl he) (List.prefix_refl _)
    obtain ⟨hpair, hbelow⟩ := ih hall
    rw [Trail.files_listed]
    refine ⟨hpair, fun f hf => ?_⟩
    obtain ⟨e, he, hf⟩ := hbelow f hf
    rcases List.mem_append.mp he with he | he
    · exact ⟨.enter dir, List.mem_cons_self, (prefix_of_mem_errands hl he).trans hf⟩
    · exact ⟨e, List.mem_cons_of_mem _ he, hf⟩

/-- **The files of a walk from a root are in order**, so none is found twice. -/
theorem pairwise_files_ofRoot (fs : FileSystem) (skip : List String) (root : Path) :
    (ofRoot fs skip root).files.Pairwise Path.Precedes :=
  (pairwise_files [] [.enter root] (List.pairwise_singleton _ _)).1

end Walk

end Unimported
