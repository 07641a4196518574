import Mathlib.Data.List.Induction
import Mathlib.Data.List.Nodup
import Unimported.Proofs.Walk.Denied

/-!
# The path under which a walk lists a directory

Where the paths that a walk comes to resolve in full, a directory that several of them lead to is
listed once, under the path that the walk comes to first.  So where a link leads to a directory, or
to one on the way to it, the directory may be listed under the path of the link, and its own path is
passed over.  This is so if and only if the walk meets such a link before it comes to the
directory's own path.

The order carries the argument: whatever is listed under a path, a directory that an errand leads to
was listed by the time of the errand, so under a path that comes no later.  Which directory that is,
a walk tells by canonical paths.

## Main definitions

* `Walk.Trail.CoversBy` — a directory was listed by the time of a path.
* `Walk.Timely` — what has become of an errand in time.
* `Walk.LiesBelow` — a directory below the root that real directories lead to.
* `Walk.Overtaken` — the walk meets a link to a directory before it comes to the directory's own
  path.

## Main results

* `Walk.timely` — a walk that is not stopped has listed directories in time.
* `Walk.exists_listing_of_not_overtaken`, `Walk.not_listing_of_overtaken` — what is overtaken, and
  what is not.
* `Walk.listed_iff_not_overtaken`, `Walk.mem_files_iff_not_overtaken` — **a directory is listed
  under its own path, and its files are found there, unless a link overtakes it.**
-/

namespace Unimported

/-- What comes before a path comes before its entries. -/
theorem Path.Before.child {p q : Path} (h : p.Before q) (n : String) : p.Before (q.child n) := by
  rcases h with ⟨m, rest, hq⟩ | h
  · exact Or.inl ⟨m, rest ++ [n], by rw [segments_child, hq, List.append_assoc, List.cons_append]⟩
  · exact .of_precedes h ⟨[n], rfl⟩

/-- What lies at or below a path does not come before it. -/
theorem Path.Before.not_below {p q : Path} (h : p.Before q) : ¬ q.segments <+: p.segments := by
  rintro ⟨further, hp⟩
  rcases h with ⟨m, rest, hq⟩ | ⟨front, x, y, u, v, hu, hv, hlt⟩
  · have hlength := congrArg List.length hp
    rw [hq] at hlength
    simp only [List.length_append, List.length_cons] at hlength
    omega
  · -- the names where the paths part would be the same
    rw [hv, hu, List.append_assoc] at hp
    obtain ⟨rfl, -⟩ := List.cons.inj (List.append_cancel_left hp)
    exact String.lt_irrefl y hlt

/-- What a path precedes does not come before it. -/
theorem Path.Precedes.not_before {p q : Path} (h : p.Precedes q) : ¬ q.Before p := by
  rintro (⟨n, rest, hp⟩ | hback)
  · have hbefore : p.Before q := Or.inr h
    exact hbefore.not_below ⟨n :: rest, hp.symm⟩
  · exact h.asymm hback

namespace FileSystem

open Tree (LeadsIn)

/-- An entry that is no link is found, unless its path is too long. -/
theorem locate_child_of_leadsIn {fs : FileSystem} {dir : Path} {real found : Location} {n : String}
    (hdir : fs.locate dir = .ok real) (h : LeadsIn fs.tree 0 real [n] found)
    (hshort : fs.locate (dir.child n) ≠ .error .nameTooLong) :
    fs.locate (dir.child n) = .ok found := by
  obtain ⟨⟨k, hk, hlead⟩, -⟩ := locate_eq_ok.mp hdir
  have hentry : LeadsIn fs.tree (k + 0) (fs.start (dir.child n)) (dir.child n).segments found :=
    hlead.append h
  refine locate_eq_ok.mpr ⟨⟨k + 0, hk, hentry⟩, ?_⟩
  rw [Bool.eq_false_iff]
  intro hlong
  apply hshort
  unfold locate judged Tree.follow
  rw [Tree.followAtMost_of_leadsIn hentry, if_pos (show k + 0 ≤ Tree.mostLinks from hk)]
  exact if_pos hlong

end FileSystem

namespace Walk

open Path (IsName)
open Tree (IsReal LeadsIn)

variable {fs : FileSystem} {skip : List String} {deepest : Nat} {seen : List Path}
  {todo : List Errand} {t : Trail} {root : Path} {real : Location} {way : List String}

/-! ### Listed in time -/

/-- A directory with a canonical path was listed before a trail, or one is listed in it by the time
of a path. -/
def Trail.CoversBy (fs : FileSystem) (seen : List Path) (t : Trail) (p real : Path) : Prop :=
  real ∈ seen ∨
    ∃ l ∈ t.listings, fs.resolve l.path = .ok real ∧ (l.path = p ∨ l.path.Before p)

/-- The directory that an errand leads to is listed by the time of the errand. -/
def Timely (fs : FileSystem) (skip : List String) (seen : List Path) (t : Trail) : Errand → Prop
  | .enter dir => ∀ real, fs.resolve dir = .ok real → t.CoversBy fs seen dir real
  | .look entry => fs.isDirectory entry = .ok true → isPassedBy skip entry.name = false →
      ∀ real, fs.resolve entry = .ok real → t.CoversBy fs seen entry real

theorem Timely.imp {seen' : List Path} {t' : Trail} {e : Errand} (h : Timely fs skip seen t e)
    (hcovers : ∀ {real}, t.CoversBy fs seen e.path real → t'.CoversBy fs seen' e.path real) :
    Timely fs skip seen' t' e := by
  cases e with
  | enter dir => exact fun real hreal => hcovers (h real hreal)
  | look entry => exact fun hd hp real hreal => hcovers (h hd hp real hreal)

theorem Timely.found {file : Path} {e : Errand} (h : Timely fs skip seen t e) :
    Timely fs skip seen (t.cons (.found file)) e := h.imp id

/-- A directory that was listed before is listed now, when it is the first of a trail, and this is
in time for what comes after it. -/
theorem Timely.listed {l : Listing} {first : Path} {e : Errand}
    (hfirst : fs.resolve l.path = .ok first) (h : Timely fs skip (first :: seen) t e)
    (hl : l.path.Before e.path) : Timely fs skip seen (t.cons (.listed l)) e := by
  refine h.imp fun {real} hcovers => ?_
  rw [Trail.CoversBy, Trail.listings_listed]
  rcases hcovers with hmem | ⟨l', hl', hreal, hbefore⟩
  · rcases List.mem_cons.mp hmem with rfl | hmem
    · exact Or.inr ⟨l, List.mem_cons_self, hfirst, Or.inr hl⟩
    · exact Or.inl hmem
  · exact Or.inr ⟨l', List.mem_cons_of_mem l hl', hreal, hbefore⟩

/-- **A walk that is not stopped has listed in time** what the errands that it began with or met
lead to. -/
theorem timely (htodo : todo.Pairwise Errand.Precedes)
    (hstop : (walk fs skip deepest seen todo).stopped = none) :
    (∀ e ∈ todo, Timely fs skip seen (walk fs skip deepest seen todo) e) ∧
      ∀ l ∈ (walk fs skip deepest seen todo).listings, ∀ e ∈ errands l,
        Timely fs skip seen (walk fs skip deepest seen todo) e := by
  fun_induction walk fs skip deepest seen todo with
  | case1 => exact ⟨fun e he => (List.not_mem_nil he).elim, fun l hl => (List.not_mem_nil hl).elim⟩
  | case2 => cases hstop
  | case3 seen entry rest hd hp ih =>
    obtain ⟨hrest, hlisted⟩ := ih (List.pairwise_cons.mp htodo).2 hstop
    refine ⟨fun e he => ?_, hlisted⟩
    rcases List.mem_cons.mp he with rfl | he
    · intro _ hp'
      rw [hp] at hp'
      cases hp'
    · exact hrest e he
  | case4 seen entry rest hd hp ih =>
    -- the entry is listed in time when the directory is that it turned into
    obtain ⟨hfirst, hrest⟩ := List.pairwise_cons.mp htodo
    obtain ⟨hrest, hlisted⟩ := ih (List.pairwise_cons.mpr ⟨hfirst, hrest⟩) hstop
    refine ⟨fun e he => ?_, hlisted⟩
    rcases List.mem_cons.mp he with rfl | he
    · exact fun _ _ => hrest (.enter entry) List.mem_cons_self
    · exact hrest e (List.mem_cons_of_mem _ he)
  | case5 seen entry rest hd ih =>
    obtain ⟨hrest, hlisted⟩ := ih (List.pairwise_cons.mp htodo).2 hstop
    refine ⟨fun e he => ?_, fun l hl e he => (hlisted l hl e he).found⟩
    rcases List.mem_cons.mp he with rfl | he
    · intro hd'
      rw [hd] at hd'
      cases hd'
    · exact (hrest e he).found
  | case6 => cases hstop
  | case7 seen dir rest real hi hs ih =>
    obtain ⟨hrest, hlisted⟩ := ih (List.pairwise_cons.mp htodo).2 hstop
    refine ⟨fun e he => ?_, hlisted⟩
    rcases List.mem_cons.mp he with rfl | he
    · intro real' hreal'
      obtain rfl := Except.ok.inj ((identify_eq_ok.mp hi).2.symm.trans hreal')
      exact Or.inl hs
    · exact hrest e he
  | case8 => cases hstop
  | case9 seen dir rest real hi hs l hl ih =>
    obtain ⟨hfirst, hrest⟩ := List.pairwise_cons.mp htodo
    obtain ⟨-, -, -, hpath⟩ := FileSystem.list_eq_ok hl
    have hreal := resolve_of_list hi hl
    have hall : (errands l ++ rest).Pairwise Errand.Precedes := by
      refine List.pairwise_append.mpr ⟨pairwise_errands hl, hrest, fun e he e' he' => ?_⟩
      exact (hfirst e' he').mono (prefix_of_mem_errands hl he) (List.prefix_refl _)
    obtain ⟨htimely, hlisted⟩ := ih hall hstop
    -- the directory comes before its entries, before later errands and before what they list
    have hinside : ∀ e ∈ errands l, l.path.Before e.path := by
      intro e he
      obtain ⟨n, -, rfl⟩ := List.mem_map.mp he
      exact Or.inl ⟨n, [], rfl⟩
    have hlater : ∀ e ∈ rest, l.path.Before e.path := fun e he => Or.inr (hpath ▸ hfirst e he)
    have hfollows : ∀ l' ∈ (walk fs skip deepest (real :: seen) (errands l ++ rest)).listings,
        l.path.Before l'.path := by
      have horder : (walk fs skip deepest seen (.enter dir :: rest)).listings.Pairwise
          fun l l' => l.path.Before l'.path := (pairwise_listings seen _ htodo).1
      rw [walk_enter_listed hi hs hl, Trail.listings_listed] at horder
      exact (List.pairwise_cons.mp horder).1
    refine ⟨fun e he => ?_, fun l' hl' e he => ?_⟩
    · rcases List.mem_cons.mp he with rfl | he
      · intro real' hreal'
        obtain rfl := Except.ok.inj ((identify_eq_ok.mp hi).2.symm.trans hreal')
        exact Or.inr ⟨l, by simp, hreal, Or.inl hpath⟩
      · exact (htimely e (List.mem_append_right _ he)).listed hreal (hlater e he)
    · rw [Trail.listings_listed] at hl'
      rcases List.mem_cons.mp hl' with rfl | hl'
      · exact (htimely e (List.mem_append_left _ he)).listed hreal (hinside e he)
      · obtain ⟨n, -, rfl⟩ := List.mem_map.mp he
        exact (hlisted l' hl' _ he).listed hreal ((hfollows l' hl').child n)

/-! ### Links that overtake a directory -/

/-- A directory below a location that real directories lead to, under names that are not passed
by. -/
structure LiesBelow (fs : FileSystem) (skip : List String) (real : Location) (way : List String) :
    Prop where
  directories : ∀ front, front <+: way → fs.tree.hasDirectory (real ++ front) = true
  visible : ∀ n ∈ way, isPassedBy skip n = false

/-- The walk meets a link to a directory below the root, or to one on the way to it, before it comes
to the directory's own path. -/
def Overtaken (fs : FileSystem) (skip : List String) (root : Path) (real : Location)
    (way : List String) : Prop :=
  ∃ front, front ≠ [] ∧ front <+: way ∧
    ∃ l ∈ (ofRoot fs skip root).listings, ∃ n ∈ l.names, ∃ target,
      fs.tree.node? (l.real ++ [n]) = some (.link target) ∧ isPassedBy skip n = false ∧
      (l.path.child n).Precedes ⟨root.anchor, root.segments ++ front⟩ ∧
      fs.locate (l.path.child n) = .ok (real ++ front)

theorem LiesBelow.above {front : List String} (h : LiesBelow fs skip real way)
    (hfront : front <+: way) : LiesBelow fs skip real front :=
  ⟨fun first hfirst => h.directories first (hfirst.trans hfront),
    fun n hn => h.visible n (hfront.subset hn)⟩

theorem LiesBelow.isWay (hwf : fs.tree.WellFormed) (h : LiesBelow fs skip real way) :
    IsWay skip way := by
  intro n hn
  obtain ⟨front, back, rfl⟩ := List.append_of_mem hn
  have hd := h.directories (front ++ [n]) ⟨back, by simp⟩
  rw [← List.append_assoc] at hd
  exact ⟨hwf.isName_of_node? (of_decide_eq_true hd), h.visible n hn⟩

/-- A link that overtakes a directory overtakes what is in it. -/
theorem Overtaken.mono {front : List String} (h : Overtaken fs skip root real front)
    (hfront : front <+: way) : Overtaken fs skip root real way := by
  obtain ⟨first, hne, hfirst, hlink⟩ := h
  exact ⟨first, hne, hfirst.trans hfront, hlink⟩

section Below

variable (hwf : fs.tree.WellFormed) (hcwd : IsReal fs.tree fs.cwd)
  (hfull : ∀ dir, ComesTo fs skip root dir → fs.ResolvesInFull dir)
  (hroot : fs.locate root = .ok real) (hstop : (ofRoot fs skip root).stopped = none)

include hwf hcwd hfull

/-- No directory is listed under two paths. -/
theorem eq_of_real_eq {l l' : Listing} (hl : l ∈ (ofRoot fs skip root).listings)
    (hl' : l' ∈ (ofRoot fs skip root).listings) (h : l.real = l'.real) : l = l' :=
  List.inj_on_of_nodup_map (nodup_real hwf hcwd hfull) hl hl' h

/-- A directory whose canonical path is covered by the time of its path is listed by then. -/
theorem exists_listing_by {dir : Path} {place : Location} (hdir : ComesTo fs skip root dir)
    (hplace : fs.locate dir = .ok place)
    (h : ∀ q, fs.resolve dir = .ok q → (ofRoot fs skip root).CoversBy fs [] dir q) :
    ∃ l ∈ (ofRoot fs skip root).listings, l.real = place ∧ (l.path = dir ∨ l.path.Before dir) := by
  have hq := FileSystem.resolve_of_locate hwf hcwd (hfull dir hdir) hplace
  obtain ⟨l, hl, hsame, hpath⟩ := (h _ hq).resolve_left List.not_mem_nil
  exact ⟨l, hl, exists_listing_of_resolve hwf hcwd hfull hdir hplace hq hl hsame, hpath⟩

include hroot hstop

/-- The root is listed under its own path. -/
theorem exists_listing_root :
    ∃ l ∈ (ofRoot fs skip root).listings, l.path = root ∧ l.real = real := by
  obtain ⟨hfirst, -⟩ := timely (List.pairwise_singleton _ _) hstop
  obtain ⟨l, hl, hreal, hpath⟩ := exists_listing_by hwf hcwd hfull .root hroot
    (hfirst (.enter root) List.mem_cons_self)
  refine ⟨l, hl, hpath.resolve_right fun hbefore => hbefore.not_below ?_, hreal⟩
  -- nothing that is listed lies above the root
  obtain ⟨e, he, hprefix⟩ := (pairwise_listings [] _ (List.pairwise_singleton _ _)).2 l hl
  rwa [List.mem_singleton.mp he] at hprefix

omit hcwd hfull in
/-- An entry of a listed directory that is a directory itself is found where it stands. -/
theorem locate_entry {l : Listing} (hl : l ∈ (ofRoot fs skip root).listings) {n : String}
    (hd : fs.tree.hasDirectory (l.real ++ [n]) = true) :
    n ∈ l.names ∧ fs.locate (l.path.child n) = .ok (l.real ++ [n]) ∧
      fs.isDirectory (l.path.child n) = .ok true := by
  obtain ⟨hreal, hnames, -⟩ := located_of_mem_listings hroot hl
  obtain ⟨-, hlist⟩ := below_stages hwf skip root _ (Trail.mem_listings.mp hl)
  obtain ⟨-, hdir, -, -⟩ := FileSystem.list_eq_ok hlist
  have hnode : fs.tree.node? (l.real ++ [n]) = some .directory := of_decide_eq_true hd
  have hn : n ∈ l.names := by
    rw [hnames, Tree.mem_names, hnode]
    rfl
  have hlead : LeadsIn fs.tree 0 l.real [n] (l.real ++ [n]) :=
    .down hdir (Tree.isPlain_of_isName (hwf.isName_of_node? hnode)) hnode (by simp) .done
  have hfound := FileSystem.locate_child_of_leadsIn hreal hlead (short_of_stopped hstop l hl n hn)
  exact ⟨hn, hfound, FileSystem.isDirectory_eq_true.mpr ⟨_, hfound, hd⟩⟩

omit hstop in
/-- **What is listed before its own path was overtaken by a link**, if the directories on the way to
it are listed under their own paths. -/
theorem overtaken_of_before {front : List String} {n : String}
    (habove : ∀ w, w <+: front → ∃ l ∈ (ofRoot fs skip root).listings,
      l.path = ⟨root.anchor, root.segments ++ w⟩ ∧ l.real = real ++ w)
    {l : Listing} (hl : l ∈ (ofRoot fs skip root).listings)
    (hreal : l.real = real ++ (front ++ [n]))
    (hbefore : l.path.Before ⟨root.anchor, root.segments ++ (front ++ [n])⟩) :
    Overtaken fs skip root real (front ++ [n]) := by
  obtain ⟨hlocate, -, -⟩ := located_of_mem_listings hroot hl
  rcases exists_entry_of_mem_listings hl with hpath | ⟨l', hl', m, hm, hpath, hseen⟩
  · -- the root is another directory
    rw [hpath, hroot] at hlocate
    have hlength := congrArg List.length (Except.ok.inj hlocate)
    rw [hreal] at hlength
    simp at hlength
  · obtain ⟨hlocate', hnames, -⟩ := located_of_mem_listings hroot hl'
    rw [hpath] at hlocate hbefore
    obtain ⟨k, hlead⟩ := FileSystem.leads_of_locate_child hlocate' hlocate
    have hname : IsName m := hwf.isName (hnames ▸ hm)
    rcases hlead.of_single (Tree.isPlain_of_isName hname) with ⟨-, -, -, hplace⟩ | ⟨target, hlink⟩
    · -- the directory around it is listed once, and so the path is its own
      rw [hreal, ← List.append_assoc] at hplace
      obtain ⟨hdirs, hlast⟩ := List.append_inj' hplace rfl
      obtain ⟨l₀, hl₀, hpath₀, hreal₀⟩ := habove front (List.prefix_refl _)
      obtain rfl := eq_of_real_eq hwf hcwd hfull hl₀ hl' (hreal₀.trans hdirs)
      refine absurd ⟨[], ?_⟩ hbefore.not_below
      rw [List.append_nil, Path.segments_child, hpath₀, (List.cons.inj hlast).1, List.append_assoc]
    · refine ⟨front ++ [n], by simp, List.prefix_refl _, l', hl', m, hm, target, hlink, hseen, ?_,
        hreal ▸ hlocate⟩
      refine hbefore.resolve_left ?_
      -- above the directory are those on the way to it, which are others
      rintro ⟨x, rest, hsplit⟩
      obtain ⟨⟨w, -, hw⟩, -⟩ := below_stages hwf skip root _ (Trail.mem_listings.mp hl)
      rw [← hpath, hw, List.append_assoc] at hsplit
      have hprefix : w <+: front ++ [n] := ⟨x :: rest, (List.append_cancel_left hsplit).symm⟩
      have hother : real ++ w ≠ l.real := by
        intro hsame
        rw [hreal] at hsame
        obtain rfl := List.append_cancel_left hsame
        simp at hsplit
      obtain ⟨l₁, hl₁, hpath₁, hreal₁⟩ := habove w <|
        (List.prefix_concat_iff.mp hprefix).resolve_left fun h => hother (by rw [h, hreal])
      obtain ⟨hlocate₁, -, -⟩ := located_of_mem_listings hroot hl₁
      rw [hpath₁, ← hw, hpath] at hlocate₁
      exact hother (hreal₁.symm.trans (Except.ok.inj (hlocate₁.symm.trans hlocate)))

/-- **A directory is listed under its own path**, and so are those on the way to it, if no link
overtakes it. -/
theorem exists_listing_of_not_overtaken (h : LiesBelow fs skip real way)
    (hfirst : ¬ Overtaken fs skip root real way) :
    ∀ w, w <+: way → ∃ l ∈ (ofRoot fs skip root).listings,
      l.path = ⟨root.anchor, root.segments ++ w⟩ ∧ l.real = real ++ w := by
  induction way using List.reverseRecOn with
  | nil =>
    intro w hw
    rw [List.prefix_nil.mp hw, List.append_nil, List.append_nil]
    exact exists_listing_root hwf hcwd hfull hroot hstop
  | append_singleton front n ih =>
    have hfront : front <+: front ++ [n] := List.prefix_append _ _
    have habove := ih (h.above hfront) fun hlink => hfirst (hlink.mono hfront)
    intro w hw
    refine (List.prefix_concat_iff.mp hw).elim (fun hwhole => ?_) (habove w)
    obtain ⟨l, hl, hpath, hreal⟩ := habove front (List.prefix_refl _)
    have hd := h.directories (front ++ [n]) (List.prefix_refl _)
    have hplace : l.real ++ [n] = real ++ (front ++ [n]) := by rw [hreal, List.append_assoc]
    obtain ⟨hn, hfound, hdir⟩ := locate_entry hwf hroot hstop hl (hplace ▸ hd)
    have hseen : isPassedBy skip (l.path.child n).name = false := by
      rw [Path.name_child]
      exact h.visible n (by simp)
    have hown : l.path.child n = ⟨root.anchor, root.segments ++ (front ++ [n])⟩ := by
      rw [hpath, Path.child, List.append_assoc]
    have hlook : Errand.look (l.path.child n) ∈ errands l := List.mem_map_of_mem hn
    obtain ⟨-, hlisted⟩ := timely (List.pairwise_singleton _ _) hstop
    rw [hwhole]
    -- the entry is listed by the time that the walk comes to it, and not before
    obtain ⟨l', hl', hreal', hpath' | hbefore⟩ := exists_listing_by hwf hcwd hfull
      (.entry hl hn hdir (h.visible n (by simp))) hfound (hlisted l hl _ hlook hdir hseen)
    · exact ⟨l', hl', hpath'.trans hown, hreal'.trans hplace⟩
    · refine absurd ?_ hfirst
      exact overtaken_of_before hwf hcwd hfull hroot habove hl' (hreal'.trans hplace)
        (hown ▸ hbefore)

omit hcwd hfull in
/-- Where a directory is listed under its own path, it and those on the way to it stand where their
paths say. -/
theorem exists_listing_above (h : LiesBelow fs skip real way) {l : Listing}
    (hl : l ∈ (ofRoot fs skip root).listings)
    (hpath : l.path = ⟨root.anchor, root.segments ++ way⟩) :
    ∀ w, w <+: way → ∃ l' ∈ (ofRoot fs skip root).listings,
      l'.path = ⟨root.anchor, root.segments ++ w⟩ ∧ l'.real = real ++ w := by
  induction way using List.reverseRecOn generalizing l with
  | nil =>
    intro w hw
    rw [List.append_nil] at hpath
    obtain ⟨hlocate, -, -⟩ := located_of_mem_listings hroot hl
    rw [hpath, hroot] at hlocate
    rw [List.prefix_nil.mp hw, List.append_nil, List.append_nil]
    exact ⟨l, hl, hpath, (Except.ok.inj hlocate).symm⟩
  | append_singleton front n ih =>
    have hfront : front <+: front ++ [n] := List.prefix_append _ _
    -- the directory around it, because of whose entry it was listed
    obtain ⟨l', hl', hpath', hname⟩ : ∃ l' ∈ (ofRoot fs skip root).listings,
        l'.path = ⟨root.anchor, root.segments ++ front⟩ ∧ l.path = l'.path.child n := by
      rcases exists_entry_of_mem_listings hl with hsame | ⟨l', hl', m, -, hchild, -⟩
      · have hlength := congrArg (fun p => p.segments.length) (hsame.symm.trans hpath)
        simp at hlength
      · have hown : l'.path.child m = Path.child ⟨root.anchor, root.segments ++ front⟩ n := by
          rw [← hchild, hpath, Path.child, List.append_assoc]
        obtain rfl : m = n := by
          rw [← Path.name_child l'.path m, hown, Path.name_child]
        refine ⟨l', hl', ?_, hchild⟩
        rw [← Path.parent_child l'.path m, hown, Path.parent_child]
    have habove := ih (h.above hfront) hl' hpath'
    intro w hw
    refine (List.prefix_concat_iff.mp hw).elim (fun hwhole => ?_) (habove w)
    obtain ⟨l₀, hl₀, hpath₀, hreal₀⟩ := habove front (List.prefix_refl _)
    have hplace : l₀.real ++ [n] = real ++ (front ++ [n]) := by rw [hreal₀, List.append_assoc]
    have hd := h.directories (front ++ [n]) (List.prefix_refl _)
    obtain ⟨-, hfound, -⟩ := locate_entry hwf hroot hstop hl₀ (hplace ▸ hd)
    obtain ⟨hlocate, -, -⟩ := located_of_mem_listings hroot hl
    rw [hname, hpath', ← hpath₀, hfound] at hlocate
    rw [hwhole]
    exact ⟨l, hl, hpath, (Except.ok.inj hlocate).symm.trans hplace⟩

/-- **A directory that a link overtakes is not listed under its own path.** -/
theorem not_listing_of_overtaken (h : LiesBelow fs skip real way)
    (hlink : Overtaken fs skip root real way) :
    ¬ ∃ l ∈ (ofRoot fs skip root).listings, l.path = ⟨root.anchor, root.segments ++ way⟩ := by
  rintro ⟨l, hl, hpath⟩
  obtain ⟨front, -, hfront, l', hl', n, hn, target, -, hseen, hprecedes, hfound⟩ := hlink
  obtain ⟨l₁, hl₁, hpath₁, hreal₁⟩ :=
    exists_listing_above hwf hroot hstop h hl hpath front hfront
  have hdir : fs.isDirectory (l'.path.child n) = .ok true :=
    FileSystem.isDirectory_eq_true.mpr ⟨_, hfound, h.directories front hfront⟩
  have hlook : Errand.look (l'.path.child n) ∈ errands l' := List.mem_map_of_mem hn
  have hcomes : ComesTo fs skip root (l'.path.child n) := .entry hl' hn hdir hseen
  rw [← Path.name_child l'.path n] at hseen
  obtain ⟨-, hlisted⟩ := timely (List.pairwise_singleton _ _) hstop
  -- by the time of the link the directory is listed, and it is listed once
  obtain ⟨l₀, hl₀, hreal₀, hbefore⟩ := exists_listing_by hwf hcwd hfull hcomes hfound
    (hlisted l' hl' _ hlook hdir hseen)
  obtain rfl := eq_of_real_eq hwf hcwd hfull hl₀ hl₁ (hreal₀.trans hreal₁.symm)
  rw [hpath₁] at hbefore
  rcases hbefore with hsame | hbefore
  · exact hprecedes.ne hsame.symm
  · exact hprecedes.not_before hbefore

/-- **A directory is listed under its own path unless a link overtakes it.** -/
theorem listed_iff_not_overtaken (h : LiesBelow fs skip real way) :
    (∃ l ∈ (ofRoot fs skip root).listings, l.path = ⟨root.anchor, root.segments ++ way⟩) ↔
      ¬ Overtaken fs skip root real way := by
  refine ⟨fun hlisted hlink => not_listing_of_overtaken hwf hcwd hfull hroot hstop h hlink hlisted,
    fun hfirst => ?_⟩
  obtain ⟨l, hl, hpath, -⟩ :=
    exists_listing_of_not_overtaken hwf hcwd hfull hroot hstop h hfirst way (List.prefix_refl _)
  exact ⟨l, hl, hpath⟩

/-- **A file in a directory is found under its own path unless a link overtakes the directory.** -/
theorem mem_files_iff_not_overtaken (h : LiesBelow fs skip real way) {name : String}
    {bytes : List UInt8} (hfile : fs.tree.node? (real ++ way ++ [name]) = some (.file bytes)) :
    Path.child ⟨root.anchor, root.segments ++ way⟩ name ∈ (ofRoot fs skip root).files ↔
      ¬ Overtaken fs skip root real way := by
  rw [← listed_iff_not_overtaken hwf hcwd hfull hroot hstop h]
  constructor
  · intro hmem
    obtain ⟨-, hlook | ⟨l, hl, hlook⟩⟩ := exists_of_mem_files hmem
    · cases List.mem_singleton.mp hlook
    · obtain ⟨n, -, he⟩ := List.mem_map.mp hlook
      have hchild := Errand.look.inj he
      refine ⟨l, hl, ?_⟩
      rw [← Path.parent_child l.path n, hchild, Path.parent_child]
  · rintro ⟨l, hl, hpath⟩
    obtain ⟨l', hl', hpath', hreal⟩ :=
      exists_listing_above hwf hroot hstop h hl hpath way (List.prefix_refl _)
    obtain ⟨hlocate, hnames, -⟩ := located_of_mem_listings hroot hl'
    have hn : name ∈ l'.names := by
      rw [hnames, hreal, Tree.mem_names, hfile]
      rfl
    rw [← hpath']
    obtain ⟨⟨b, hb⟩, hfound, -⟩ := (handled hstop).2 l' hl' (.look (l'.path.child name))
      (List.mem_map_of_mem hn)
    cases b with
    | false => exact hfound hb
    | true =>
      -- what leads to a file is no directory
      exfalso
      obtain ⟨found, hfound, hd⟩ := FileSystem.isDirectory_eq_true.mp hb
      obtain ⟨k, hlead⟩ := FileSystem.leads_of_locate_child hlocate hfound
      rw [hreal] at hlead
      rcases hlead.of_single (Tree.isPlain_of_isName (hwf.isName_of_node? hfile)) with
        ⟨node, -, -, rfl⟩ | ⟨target, hlink⟩
      · rw [Tree.hasDirectory, hfile] at hd
        cases hd
      · rw [hfile] at hlink
        cases hlink

end Below

end Walk

end Unimported
