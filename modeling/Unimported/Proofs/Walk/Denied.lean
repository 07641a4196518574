import Unimported.Proofs.FileSystem.Linkless
import Unimported.Proofs.Walk.Coverage

/-!
# Walks that meet a denied directory

A walk goes on as if nothing were denied until it comes to a directory that is, and there it stops.
It comes to directories in their order: a directory before what is in it, and all that is in one
entry before the next entry.  Where no link stands, the directories that it comes to are those below
the root under names that are not passed by.

## Main definitions

* `Path.Before` — a path is above another, or it precedes it.
* `Walk.Visible` — a directory at or below the root under names that are not passed by.
* `Walk.MeetsDenied`, `Walk.FirstDenied` — some visible directory is denied, and which is the first
  of them.
* `Walk.Fits` — no entry of a visible directory is refused as too long, and none lies too deep.

## Main results

* `Walk.eq_opened_of_stopped`, `Walk.stopped_eq_find` — **a walk stops at the first directory that is
  denied**, and at nothing else.
* `Walk.pairwise_listings` — directories are listed in their order.
* `Walk.exists_listing_iff_visible` — the directories that are listed are the visible ones.
* `Walk.fits_of_entries` — a tree whose paths are short enough.
* `Walk.ofRoot_denied` — **a walk stops at the first visible directory that is denied**, or it is the
  walk in which nothing is denied.
-/

namespace Unimported

/-- A path comes before another in the order of a walk: it is above it, or it precedes it. -/
def Path.Before (p q : Path) : Prop :=
  (∃ n rest, q.segments = p.segments ++ n :: rest) ∨ p.Precedes q

theorem Path.Before.of_precedes {p p' q : Path} (h : p.Precedes p')
    (hq : p'.segments <+: q.segments) : p.Before q :=
  Or.inr (h.mono (List.prefix_refl _) hq)

namespace Walk

open Tree (IsReal Leads LeadsIn)

variable {fs : FileSystem} {skip : List String} {deepest : Nat} {seen : List Path}
  {todo : List Errand}

/-! ### The first denied directory stops a walk -/

/-- What a directory is told by has nothing to do with what is denied. -/
theorem identify_opened (fs : FileSystem) (deepest : Nat) (dir : Path) :
    identify fs.opened deepest dir = identify fs deepest dir := rfl

/-- A walk that is not stopped met nothing denied. -/
theorem eq_opened_of_stopped (h : (walk fs skip deepest seen todo).stopped = none) :
    walk fs.opened skip deepest seen todo = walk fs skip deepest seen todo := by
  fun_induction walk fs skip deepest seen todo with
  | case1 => rw [walk]
  | case2 => cases h
  | case3 seen entry rest hd hp ih =>
    rw [walk_look, FileSystem.isDirectory_opened, hd]
    simp only [hp, if_true]
    exact ih h
  | case4 seen entry rest hd hp ih =>
    rw [walk_look, FileSystem.isDirectory_opened, hd]
    simp only [hp]
    exact ih h
  | case5 seen entry rest hd ih =>
    rw [walk_look, FileSystem.isDirectory_opened, hd]
    exact congrArg (Trail.cons (.found entry)) (ih h)
  | case6 => cases h
  | case7 seen dir rest real hi hs ih =>
    rw [walk_enter_seen (identify_opened fs deepest dir ▸ hi) hs]
    exact ih h
  | case8 => cases h
  | case9 seen dir rest real hi hs l hl ih =>
    have hopened : fs.opened.list dir = .ok l := by
      rw [FileSystem.list_eq] at hl
      split at hl
      · cases hl
      · exact hl
    rw [walk_enter_listed (identify_opened fs deepest dir ▸ hi) hs hopened]
    exact congrArg (Trail.cons (.listed l)) (ih h)

/-- **A walk is stopped by the first directory that is denied**, of those that are listed when
nothing is. -/
theorem stopped_eq_find (h : (walk fs.opened skip deepest seen todo).stopped = none) :
    (walk fs skip deepest seen todo).stopped =
      ((walk fs.opened skip deepest seen todo).listings.find? fun l => fs.isDenied l.path).map
        fun l => unlistable l.path .denied := by
  fun_induction walk fs.opened skip deepest seen todo with
  | case1 => rw [walk]; rfl
  | case2 => cases h
  | case3 seen entry rest hd hp ih =>
    rw [walk_look, show fs.isDirectory entry = .ok true from hd]
    simp only [hp, if_true]
    exact ih h
  | case4 seen entry rest hd hp ih =>
    rw [walk_look, show fs.isDirectory entry = .ok true from hd]
    simp only [hp]
    exact ih h
  | case5 seen entry rest hd ih =>
    rw [walk_look, show fs.isDirectory entry = .ok false from hd, Trail.listings_found]
    exact ih h
  | case6 => cases h
  | case7 seen dir rest real hi hs ih =>
    rw [walk_enter_seen (identify_opened fs deepest dir ▸ hi) hs]
    exact ih h
  | case8 => cases h
  | case9 seen dir rest real hi hs l hl ih =>
    obtain ⟨-, -, -, hpath⟩ := FileSystem.list_eq_ok hl
    have hlist := FileSystem.list_eq fs dir
    have hi' : identify fs deepest dir = .ok real := hi
    rw [Trail.listings_listed, List.find?_cons, hpath]
    cases hdenied : fs.isDenied dir with
    | true =>
      rw [hdenied] at hlist
      rw [walk_enter_unlistable hi' hs hlist]
      simp [hpath]
    | false =>
      rw [hdenied] at hlist
      rw [walk_enter_listed hi' hs (hlist.trans hl)]
      exact ih h

/-! ### The order of directories -/

/-- **The directories of a walk are listed in order** if the errands are, and each lies at or below
one. -/
theorem pairwise_listings (seen : List Path) (todo : List Errand)
    (htodo : todo.Pairwise Errand.Precedes) :
    (walk fs skip deepest seen todo).listings.Pairwise (fun l l' => l.path.Before l'.path) ∧
      ∀ l ∈ (walk fs skip deepest seen todo).listings,
        ∃ e ∈ todo, e.path.segments <+: l.path.segments := by
  fun_induction walk fs skip deepest seen todo with
  | case1 => exact ⟨.nil, fun l hl => (List.not_mem_nil hl).elim⟩
  | case2 => exact ⟨.nil, fun l hl => (List.not_mem_nil hl).elim⟩
  | case3 seen entry rest hd hp ih =>
    obtain ⟨hpair, hbelow⟩ := ih (List.pairwise_cons.mp htodo).2
    refine ⟨hpair, fun l hl => ?_⟩
    obtain ⟨e, he, hl⟩ := hbelow l hl
    exact ⟨e, List.mem_cons_of_mem _ he, hl⟩
  | case4 seen entry rest hd hp ih =>
    -- the errand changes, its path does not
    obtain ⟨hfirst, hrest⟩ := List.pairwise_cons.mp htodo
    obtain ⟨hpair, hbelow⟩ := ih (List.pairwise_cons.mpr ⟨hfirst, hrest⟩)
    refine ⟨hpair, fun l hl => ?_⟩
    obtain ⟨e, he, hl⟩ := hbelow l hl
    rcases List.mem_cons.mp he with rfl | he
    · exact ⟨.look entry, List.mem_cons_self, hl⟩
    · exact ⟨e, List.mem_cons_of_mem _ he, hl⟩
  | case5 seen entry rest hd ih =>
    obtain ⟨hpair, hbelow⟩ := ih (List.pairwise_cons.mp htodo).2
    rw [Trail.listings_found]
    refine ⟨hpair, fun l hl => ?_⟩
    obtain ⟨e, he, hl⟩ := hbelow l hl
    exact ⟨e, List.mem_cons_of_mem _ he, hl⟩
  | case6 => exact ⟨.nil, fun l hl => (List.not_mem_nil hl).elim⟩
  | case7 seen dir rest real hi hs ih =>
    obtain ⟨hpair, hbelow⟩ := ih (List.pairwise_cons.mp htodo).2
    refine ⟨hpair, fun l hl => ?_⟩
    obtain ⟨e, he, hl⟩ := hbelow l hl
    exact ⟨e, List.mem_cons_of_mem _ he, hl⟩
  | case8 => exact ⟨.nil, fun l hl => (List.not_mem_nil hl).elim⟩
  | case9 seen dir rest real hi hs l hl ih =>
    obtain ⟨hfirst, hrest⟩ := List.pairwise_cons.mp htodo
    obtain ⟨-, -, -, hpath⟩ := FileSystem.list_eq_ok hl
    have hall : (errands l ++ rest).Pairwise Errand.Precedes := by
      refine List.pairwise_append.mpr ⟨pairwise_errands hl, hrest, fun e he e' he' => ?_⟩
      exact (hfirst e' he').mono (prefix_of_mem_errands hl he) (List.prefix_refl _)
    obtain ⟨hpair, hbelow⟩ := ih hall
    rw [Trail.listings_listed]
    refine ⟨List.pairwise_cons.mpr ⟨fun l' hl' => ?_, hpair⟩, fun l' hl' => ?_⟩
    · -- what is listed later is in the directory, or below a later errand
      obtain ⟨e, he, hl'⟩ := hbelow l' hl'
      rcases List.mem_append.mp he with he | he
      · obtain ⟨n, -, rfl⟩ := List.mem_map.mp he
        obtain ⟨further, hfurther⟩ := hl'
        refine Or.inl ⟨n, further, ?_⟩
        rw [← hfurther, Errand.path, Path.segments_child, List.append_assoc, List.singleton_append]
      · exact .of_precedes (hpath ▸ hfirst e he) hl'
    · rcases List.mem_cons.mp hl' with rfl | hl'
      · exact ⟨.enter dir, List.mem_cons_self, hpath ▸ List.prefix_refl _⟩
      · obtain ⟨e, he, hl'⟩ := hbelow l' hl'
        rcases List.mem_append.mp he with he | he
        · exact ⟨.enter dir, List.mem_cons_self, (prefix_of_mem_errands hl he).trans hl'⟩
        · exact ⟨e, List.mem_cons_of_mem _ he, hl'⟩

/-! ### The directories of a walk -/

/-- A directory at or below the root under names that are not passed by. -/
def Visible (fs : FileSystem) (skip : List String) (root dir : Path) : Prop :=
  ∃ way, IsWay skip way ∧ dir = ⟨root.anchor, root.segments ++ way⟩ ∧ fs.isDirectory dir = .ok true

/-- A directory of the walk is denied. -/
def MeetsDenied (fs : FileSystem) (skip : List String) (root : Path) : Prop :=
  ∃ dir, Visible fs skip root dir ∧ fs.isDenied dir = true

/-- The first visible directory that is denied. -/
structure FirstDenied (fs : FileSystem) (skip : List String) (root dir : Path) : Prop where
  visible : Visible fs skip root dir
  denied : fs.isDenied dir = true
  first : ∀ dir', Visible fs skip root dir' → fs.isDenied dir' = true → dir' ≠ dir →
    dir.Before dir'

/-- No entry of a visible directory is refused as too long, and no visible directory lies too
deep. -/
structure Fits (fs : FileSystem) (skip : List String) (root : Path) : Prop where
  short : ∀ dir, Visible fs skip root dir → ∀ real, fs.locate dir = .ok real →
    ∀ n ∈ fs.tree.names real, fs.locate (dir.child n) ≠ .error .nameTooLong
  shallow : ∀ dir, Visible fs skip root dir →
    dir.segments.length ≤ root.segments.length + fs.deepest

variable {root dir : Path} {real : Location} {l : Listing}

/-- What is listed when nothing is denied is a visible directory with its entries. -/
theorem visible_of_mem_listings (hwf : fs.tree.WellFormed)
    (hl : l ∈ (ofRoot fs.opened skip root).listings) :
    Visible fs skip root l.path ∧ fs.locate l.path = .ok l.real ∧
      fs.tree.hasDirectory l.real = true ∧ l.names = fs.tree.names l.real := by
  have hwf' : fs.opened.tree.WellFormed := hwf
  obtain ⟨⟨way, hway, hpath⟩, hlist⟩ := below_stages hwf' skip root _ (Trail.mem_listings.mp hl)
  obtain ⟨hreal, hd, hnames, -⟩ := FileSystem.list_eq_ok hlist
  have hdir : fs.isDirectory l.path = .ok true :=
    FileSystem.isDirectory_eq_true.mpr ⟨l.real, hreal, hd⟩
  exact ⟨⟨way, hway, hpath, hdir⟩, hreal, hd, hnames⟩

/-- What a walk comes to when nothing is denied is a visible directory. -/
theorem visible_of_comesTo (hwf : fs.tree.WellFormed) (hdir : fs.isDirectory root = .ok true)
    (h : ComesTo fs.opened skip root dir) : Visible fs skip root dir := by
  cases h with
  | root => exact ⟨[], by simp [IsWay], by simp, hdir⟩
  | @entry l n hl hn hd hp =>
    obtain ⟨⟨way, hway, hpath, -⟩, -, -, hnames⟩ := visible_of_mem_listings hwf hl
    refine ⟨way ++ [n], fun x hx => ?_, ?_, hd⟩
    · rcases List.mem_append.mp hx with hx | hx
      · exact hway x hx
      · rw [List.mem_singleton.mp hx]
        exact ⟨hwf.isName (hnames ▸ hn), hp⟩
    · rw [hpath, Path.child, List.append_assoc]

/-- In a tree without links, nothing stands in the way of a walk that fits, when nothing is
denied. -/
theorem Fits.unhindered (hwf : fs.tree.WellFormed) (hlinks : fs.tree.Linkless)
    (hdir : fs.isDirectory root = .ok true) (hfits : Fits fs skip root) :
    Unhindered fs.opened skip root where
  canonical := fun dir _ => Tree.canonical_longest hlinks _ _ dir
  shallow := fun _ h => hfits.shallow _ (visible_of_comesTo hwf hdir h)
  short := by
    intro l hl n hn
    obtain ⟨hvisible, hreal, -, hnames⟩ := visible_of_mem_listings hwf hl
    exact hfits.short l.path hvisible l.real hreal n (hnames ▸ hn)
  links := fun _ hl _ _ h found =>
    FileSystem.not_leads_of_tooManyLinks hlinks (visible_of_mem_listings hwf hl).2.1 h found

/-- When nothing is denied, a walk from a directory that fits is not stopped. -/
theorem opened_stopped (hwf : fs.tree.WellFormed) (hlinks : fs.tree.Linkless)
    (hcwd : IsReal fs.tree fs.cwd) (hdir : fs.isDirectory root = .ok true)
    (hfits : Fits fs skip root) : (ofRoot fs.opened skip root).stopped = none := by
  have hbounds := hfits.unhindered hwf hlinks hdir
  have hwf' : fs.opened.tree.WellFormed := hwf
  exact ofRoot_stopped hwf' hcwd hdir (fun _ _ => rfl) hbounds.toInBounds

/-- Names that are not passed by lead to a directory that a walk has to list. -/
theorem reached_of_isWay {t : Tree} (hlinks : t.Linkless) {way : List String}
    (hway : IsWay skip way) {k : Nat} {found : Location} (h : LeadsIn t k real way found)
    (hd : t.hasDirectory found = true) : Reached t skip real found := by
  rcases List.eq_nil_or_concat way with rfl | ⟨init, n, rfl⟩
  · cases h
    exact .start
  · rw [List.concat_eq_append] at h hway
    obtain ⟨j, i, mid, hinit, hlast, -⟩ := h.split
    obtain ⟨hname, hp⟩ := hway n (by simp)
    have hmid : t.hasDirectory mid = true := by
      cases hlast <;> assumption
    have hnames : n ∈ t.names mid := by
      rw [Tree.mem_names]
      rcases hlast.of_single (Tree.isPlain_of_isName hname) with ⟨node, hnode, -, -⟩ | ⟨t, hnode⟩
      · rw [hnode]
        rfl
      · rw [hnode]
        rfl
    have hfirst : IsWay skip init := fun x hx => hway x (List.mem_append_left _ hx)
    have hreached := reached_of_isWay hlinks hfirst hinit hmid
    exact .entry hreached hnames hp ⟨i, hlast⟩ hd
termination_by way.length

/-- In a tree without links, a walk that ends has no bound in the way. -/
theorem unhindered_of_stopped (hlinks : fs.tree.Linkless)
    (hroot : fs.locate root = .ok real) (hstop : (ofRoot fs skip root).stopped = none) :
    Unhindered fs skip root where
  canonical := fun dir _ => Tree.canonical_longest hlinks _ _ dir
  shallow := fun _ h => shallow_of_stopped hstop h
  short := short_of_stopped hstop
  links := fun _ hl _ _ h found =>
    FileSystem.not_leads_of_tooManyLinks hlinks (located_of_mem_listings hroot hl).1 h found

/-- A visible directory is where its names lead. -/
theorem locate_of_isWay (hlinks : fs.tree.Linkless) (hroot : fs.locate root = .ok real)
    {way : List String} (hway : IsWay skip way) {found : Location}
    (h : fs.locate ⟨root.anchor, root.segments ++ way⟩ = .ok found) :
    LeadsIn fs.tree 0 real way found ∧ found = real ++ way :=
  FileSystem.leadsIn_of_locate_append hlinks hroot
    (fun n hn => Tree.isPlain_of_isName (hway n hn).1) h

/-- **The directories that are listed are the visible ones**, when nothing is denied. -/
theorem exists_listing_iff_visible (hwf : fs.tree.WellFormed) (hlinks : fs.tree.Linkless)
    (hcwd : IsReal fs.tree fs.cwd) (hdir : fs.isDirectory root = .ok true)
    (hfits : Fits fs skip root) :
    (∃ l ∈ (ofRoot fs.opened skip root).listings, l.path = dir) ↔ Visible fs skip root dir := by
  constructor
  · rintro ⟨l, hl, rfl⟩
    exact (visible_of_mem_listings hwf hl).1
  · rintro ⟨way, hway, rfl, hd⟩
    obtain ⟨real, hroot, -⟩ := FileSystem.isDirectory_eq_true.mp hdir
    obtain ⟨found, hfound, hfoundDir⟩ := FileSystem.isDirectory_eq_true.mp hd
    obtain ⟨hlead, hsame⟩ := locate_of_isWay hlinks hroot hway hfound
    have hreached := reached_of_isWay hlinks hway hlead hfoundDir
    have hwf' : fs.opened.tree.WellFormed := hwf
    obtain ⟨l, hl, hreal⟩ := (listed_iff_reached hwf' hcwd hroot
      (hfits.unhindered hwf hlinks hdir) (opened_stopped hwf hlinks hcwd hdir hfits) found).mpr
      hreached
    -- a location has one way to it, so the directory was listed under the path that is asked for
    obtain ⟨⟨way', hway', hpath, -⟩, hlocate, -⟩ := visible_of_mem_listings hwf hl
    rw [hpath] at hlocate
    obtain ⟨-, hsame'⟩ := locate_of_isWay hlinks hroot hway' hlocate
    have hways : way' = way := List.append_cancel_left (hsame'.symm.trans (hreal.trans hsame))
    exact ⟨l, hl, by rw [hpath, hways]⟩

/-- **A walk stops at the first visible directory that is denied.**  If there is none, it is the
walk in which nothing is denied. -/
theorem ofRoot_denied (hwf : fs.tree.WellFormed) (hlinks : fs.tree.Linkless)
    (hcwd : IsReal fs.tree fs.cwd) (hdir : fs.isDirectory root = .ok true)
    (hfits : Fits fs skip root) :
    (∃ dir, FirstDenied fs skip root dir ∧
      (ofRoot fs skip root).stopped = some (unlistable dir .denied)) ∨
    (¬ MeetsDenied fs skip root ∧ (ofRoot fs skip root).stopped = none ∧
      ofRoot fs skip root = ofRoot fs.opened skip root) := by
  have hopened := opened_stopped hwf hlinks hcwd hdir hfits
  have hstop : (ofRoot fs skip root).stopped =
      ((ofRoot fs.opened skip root).listings.find? fun l => fs.isDenied l.path).map fun l =>
        unlistable l.path .denied := stopped_eq_find hopened
  have hlisted : ∀ {dir}, Visible fs skip root dir →
      ∃ l ∈ (ofRoot fs.opened skip root).listings, l.path = dir :=
    (exists_listing_iff_visible hwf hlinks hcwd hdir hfits).mpr
  cases hfind : (ofRoot fs.opened skip root).listings.find? (fun l => fs.isDenied l.path) with
  | none =>
    rw [hfind] at hstop
    refine Or.inr ⟨fun ⟨dir, hvisible, hdenied⟩ => ?_, hstop, (eq_opened_of_stopped hstop).symm⟩
    obtain ⟨l, hl, rfl⟩ := hlisted hvisible
    exact absurd hdenied (List.find?_eq_none.mp hfind l hl)
  | some l =>
    rw [hfind] at hstop
    obtain ⟨hdenied, before, after, hsplit, hbefore⟩ := List.find?_eq_some_iff_append.mp hfind
    have horder : (ofRoot fs.opened skip root).listings.Pairwise fun l l' => l.path.Before l'.path :=
      (pairwise_listings [] [.enter root] (List.pairwise_singleton _ _)).1
    rw [hsplit] at horder
    obtain ⟨hvisible, -⟩ := visible_of_mem_listings hwf (List.mem_of_find?_eq_some hfind)
    refine Or.inl ⟨l.path, ⟨hvisible, hdenied, fun dir' hvisible' hdenied' hne => ?_⟩, hstop⟩
    -- another directory that is denied is listed later
    obtain ⟨l', hl', rfl⟩ := hlisted hvisible'
    rw [hsplit] at hl'
    rcases List.mem_append.mp hl' with hl' | hl'
    · have hopen := hbefore l' hl'
      rw [hdenied'] at hopen
      cases hopen
    · rcases List.mem_cons.mp hl' with rfl | hl'
      · exact absurd rfl hne
      · exact (List.pairwise_cons.mp (List.pairwise_append.mp horder).2.1).1 l' hl'

/-- Without steps out, the path of a visible directory is its location. -/
theorem Visible.eq_location (hlinks : fs.tree.Linkless) (hroot : root.IsRooted)
    (hplain : ".." ∉ root.segments) (h : Visible fs skip root dir)
    (hreal : fs.locate dir = .ok real) : dir = ⟨.root, real⟩ := by
  obtain ⟨way, hway, rfl, -⟩ := h
  have hdir : Path.IsRooted ⟨root.anchor, root.segments ++ way⟩ := by
    refine ⟨hroot.anchor, fun s hs => ?_⟩
    exact (List.mem_append.mp hs).elim (hroot.segments s) fun h => (hway s h).1.isSegment
  have hsame : real = root.segments ++ way := by
    rw [FileSystem.locate_eq_collapse hlinks hdir hreal]
    refine Path.collapse_of_not_mem fun hs => ?_
    exact (List.mem_append.mp hs).elim hplain fun h => (hway _ h).1.ne_dots rfl
  rw [hroot.anchor, hsame]

/-- **A walk fits** if the location of every entry has a path that is short enough, and is not too
deep. -/
theorem fits_of_entries (hwf : fs.tree.WellFormed) (hlinks : fs.tree.Linkless)
    (hroot : root.IsRooted) (hplain : ".." ∉ root.segments)
    (hshort : ∀ e ∈ fs.tree.entries, fs.isTooLong (Path.text ⟨.root, e.place⟩) = false)
    (hshallow : ∀ e ∈ fs.tree.entries, e.place.length ≤ root.segments.length + fs.deepest) :
    Fits fs skip root := by
  refine ⟨fun dir hvisible real hreal n hn => ?_, fun dir hvisible => ?_⟩
  · have hpath := hvisible.eq_location hlinks hroot hplain hreal
    obtain ⟨-, -, -, hd⟩ := hvisible
    obtain ⟨node, hnode⟩ := Option.isSome_iff_exists.mp (Tree.mem_names.mp hn)
    obtain ⟨e, he, hplace⟩ := Tree.exists_entry_of_node? (by simp) hnode
    obtain ⟨⟨k, -, hlead⟩, -⟩ := FileSystem.locate_eq_ok.mp hreal
    have hrealDir := FileSystem.isDirectory_of_locate hreal
    rw [hd] at hrealDir
    have hentry := hlead.append (LeadsIn.of_mem_names hwf (hlinks.below real)
      (Except.ok.inj hrealDir).symm hn)
    have hfound : fs.locate (dir.child n) = .ok (real ++ [n]) := by
      refine FileSystem.locate_eq_ok.mpr ⟨⟨k + 0, ?_, hentry⟩, ?_⟩
      · rw [(hentry.eq_foldl_enter hlinks).1]
        exact Nat.zero_le _
      · rw [hpath, Path.child, ← hplace]
        exact hshort e he
    rw [hfound]
    exact fun h => by cases h
  · obtain ⟨-, -, -, hd⟩ := id hvisible
    obtain ⟨real, hreal, hnode⟩ := FileSystem.isDirectory_eq_true.mp hd
    rw [hvisible.eq_location hlinks hroot hplain hreal]
    by_cases hne : real = []
    · rw [hne]
      exact Nat.zero_le _
    · obtain ⟨e, he, rfl⟩ := Tree.exists_entry_of_node? hne (of_decide_eq_true hnode)
      exact hshallow e he

/-! ### The files of a walk -/

/-- What a walk below a root gives. -/
theorem outcome_traverse (fs : FileSystem) (skip : List String) (root : Path) :
    (traverse fs (.texts skip) root).outcome =
      match (ofRoot fs skip root).stopped with
      | none => .ok (ofRoot fs skip root).files
      | some failure => .error failure :=
  congrArg (fun t : Trail => t.traced.outcome) (trail_texts fs skip root)

/-- A file that a walk finds is there, and it is no directory. -/
theorem exists_located_of_mem_files (hwf : fs.tree.WellFormed) (hlinks : fs.tree.Linkless)
    (hfits : Fits fs skip root) {f : Path} (hf : f ∈ (ofRoot fs.opened skip root).files) :
    ∃ real, fs.locate f = .ok real ∧ fs.tree.hasDirectory real = false := by
  obtain ⟨hfile, hlook | ⟨l, hl, hlook⟩⟩ := exists_of_mem_files hf
  · cases List.mem_singleton.mp hlook
  · obtain ⟨n, hn, he⟩ := List.mem_map.mp hlook
    obtain rfl : l.path.child n = f := Errand.look.inj he
    obtain ⟨hvisible, hreal, hd, hnames⟩ := visible_of_mem_listings hwf hl
    have hmem : n ∈ fs.tree.names l.real := hnames ▸ hn
    have hleads : Leads fs.tree l.real [n] (l.real ++ [n]) :=
      ⟨0, LeadsIn.of_mem_names hwf (hlinks.below l.real) hd hmem⟩
    have hfound := FileSystem.locate_child_of_leads hwf hreal hleads
      (hfits.short l.path hvisible l.real hreal n hmem)
      fun h => FileSystem.not_leads_of_tooManyLinks hlinks hreal h _ hleads
    refine ⟨_, hfound, ?_⟩
    rw [FileSystem.isDirectory_opened, FileSystem.isDirectory_of_locate hfound] at hfile
    exact Except.ok.inj hfile

/-- The files of a walk from the root of the tree are found under paths from there. -/
theorem isRooted_of_mem_files (hwf : fs.tree.WellFormed) (hroot : root.IsRooted) {f : Path}
    (hf : f ∈ (ofRoot fs skip root).files) : f.IsRooted := by
  obtain ⟨way, name, hway, hname, rfl⟩ := below_of_mem_files hwf hf
  refine ⟨hroot.anchor, fun s hs => ?_⟩
  rcases List.mem_append.mp hs with hs | hs
  · rcases List.mem_append.mp hs with hs | hs
    · exact hroot.segments s hs
    · exact (hway s hs).1.isSegment
  · rw [List.mem_singleton.mp hs]
    exact hname.isSegment

end Walk

end Unimported
