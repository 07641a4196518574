import Mathlib.Data.Finset.Card
import Unimported.Proofs.Tree.OneLink
import Unimported.Proofs.Walk.Coverage

/-!
# A walk ends

Links may lead around in circles, so there is no end to the paths below a root.  But a walk goes only
so many directories deep, and a directory has only so many entries; with every step, what is still to
be done becomes less.

How soon it ends is another matter.  Where the paths that the walk comes to resolve in full, a
directory is listed once, under whatever path it is met first, so that each entry of the tree is
looked at once at most; and from looking at an entry a walk comes to entering it at most.  So a walk
has done all after a number of steps that is linear in the tree.  Below a path that is too long to
be asked about, a link is not seen to be one, and a directory with a link to itself is listed again
and again, until the machine follows no more links.

A walk may also be left before its end.  What it has done up to there is a run of its steps, and what
is said about runs holds of it.

## Main definitions

* `Walk.Progress`, `Walk.Step`, `Walk.Run` — how far a walk has come, one step, and several.
* `Walk.Halts` — where there is no step, and what stopped the walk.
* `Walk.Errand.cost`, `Walk.namesIn` — how many steps an errand takes, and what listings add to that.
* `Tree.realDirectories` — the directories of a tree, each at its own location.
* `Walk.Ends`, `Walk.ListsOnce` — what it means that a walk ends, and that it lists nothing twice.

## Main results

* `Walk.walk_of_step`, `Walk.exists_run` — the trail of a walk is what its steps do.
* `Walk.Step.weight_lt` — every step makes what is to be done less.
* `Walk.Run.cost_le` — a run takes no more steps than its errands and the names that it lists.
* `Walk.traverse_ends` — **a walk ends, and where paths resolve in full it ends after a number of
  steps that is linear in the tree and lists each directory once.**
* `Walk.not_once_faraway` — elsewhere, a directory may be listed twice.
-/

namespace Unimported

namespace Tree

/-! ### The directories of a tree -/

/-- The directories of a tree, each at its own location: where all that is on the way is a directory
as well. -/
def realDirectories (t : Tree) : Finset Location :=
  t.directories.toFinset.filter fun d => ∀ p ∈ d.inits, t.hasDirectory p = true

theorem mem_realDirectories {t : Tree} (hwf : t.WellFormed) {d : Location} :
    d ∈ t.realDirectories ↔ IsReal t d ∧ t.hasDirectory d = true := by
  simp only [realDirectories, Finset.mem_filter, List.mem_toFinset, mem_directories, List.mem_inits]
  constructor
  · rintro ⟨hd, hway⟩
    refine ⟨?_, hd⟩
    -- from the root downwards, by the last name
    induction d using List.reverseRecOn with
    | nil => exact .root
    | append_singleton dir name ih =>
      have hdir : t.hasDirectory dir = true := hway dir (List.prefix_append dir [name])
      have hnode : t.node? (dir ++ [name]) = some .directory := by
        simpa [hasDirectory] using hd
      have hreal := ih hdir fun p hp => hway p (hp.trans (List.prefix_append dir [name]))
      refine .entry hreal hdir (hwf.isName_of_node? hnode) hnode ?_
      intro target h
      cases h
  · rintro ⟨hreal, hd⟩
    refine ⟨hd, ?_⟩
    clear hwf
    induction hreal with
    | root =>
      intro p hp
      rw [List.prefix_nil.mp hp]
      exact hd
    | entry _ hdir _ _ _ ih =>
      intro p hp
      rcases List.prefix_concat_iff.mp hp with rfl | hp
      · exact hd
      · exact ih hdir p hp

/-- A directory has no more names than there are entries in it. -/
theorem length_names_le_countP (t : Tree) (loc : Location) :
    (t.names loc).length ≤ t.entries.countP fun e => e.place.dropLast = loc := by
  refine Nat.le_trans (StringSet.length_ofList_le _) ?_
  rw [List.length_filterMap_eq_countP]
  refine List.countP_mono_left fun e _ h => ?_
  obtain ⟨name, hname⟩ := Option.isSome_iff_exists.mp h
  rw [nameIn?_eq_some] at hname
  simp [hname]

end Tree

namespace Walk

open Path (IsName)
open Tree (IsReal LeadsIn)

variable {fs : FileSystem} {skip : List String} {deepest : Nat} {root : Path}

/-! ### Steps -/

/-- How far a walk has come. -/
structure Progress where
  /-- The canonical paths of the directories that were listed. -/
  seen : List Path
  /-- What is still to be done, the next first. -/
  todo : List Errand

/-- Where a walk begins. -/
def Progress.start (root : Path) : Progress := ⟨[], [.enter root]⟩

/-- One step of a walk that goes so deep, with the stage that it adds to the trail if it adds one. -/
inductive Step (fs : FileSystem) (skip : List String) (deepest : Nat) :
    Progress → Option Stage → Progress → Prop where
  /-- A directory is passed by because of its name. -/
  | passBy {seen : List Path} {entry : Path} {rest : List Errand} :
      fs.isDirectory entry = .ok true → isPassedBy skip entry.name = true →
      Step fs skip deepest ⟨seen, .look entry :: rest⟩ none ⟨seen, rest⟩
  /-- An entry turns out to be a directory. -/
  | turn {seen : List Path} {entry : Path} {rest : List Errand} :
      fs.isDirectory entry = .ok true → isPassedBy skip entry.name = false →
      Step fs skip deepest ⟨seen, .look entry :: rest⟩ none ⟨seen, .enter entry :: rest⟩
  /-- An entry turns out to be no directory. -/
  | find {seen : List Path} {entry : Path} {rest : List Errand} :
      fs.isDirectory entry = .ok false →
      Step fs skip deepest ⟨seen, .look entry :: rest⟩ (some (.found entry)) ⟨seen, rest⟩
  /-- A directory was listed before. -/
  | turnBack {seen : List Path} {dir real : Path} {rest : List Errand} :
      identify fs deepest dir = .ok real → real ∈ seen →
      Step fs skip deepest ⟨seen, .enter dir :: rest⟩ none ⟨seen, rest⟩
  /-- A directory is listed. -/
  | list {seen : List Path} {dir real : Path} {rest : List Errand} {l : Listing} :
      identify fs deepest dir = .ok real → real ∉ seen → fs.list dir = .ok l →
      Step fs skip deepest ⟨seen, .enter dir :: rest⟩ (some (.listed l))
        ⟨real :: seen, errands l ++ rest⟩

/-- So many steps one after the other, with the stages that they add to the trail. -/
inductive Run (fs : FileSystem) (skip : List String) (deepest : Nat) :
    Nat → Progress → List Stage → Progress → Prop where
  /-- No step. -/
  | stay {p : Progress} : Run fs skip deepest 0 p [] p
  /-- A step, and steps after it. -/
  | step {n : Nat} {p p' p'' : Progress} {stage : Option Stage} {stages : List Stage} :
      Step fs skip deepest p stage p' → Run fs skip deepest n p' stages p'' →
      Run fs skip deepest (n + 1) p (stage.toList ++ stages) p''

/-- Where there is no step, and what stopped the walk. -/
inductive Halts (fs : FileSystem) (deepest : Nat) : Progress → Option Failure → Prop where
  /-- Everything is done. -/
  | done {seen : List Path} : Halts fs deepest ⟨seen, []⟩ none
  /-- It cannot be told whether an entry is a directory. -/
  | untold {seen : List Path} {entry : Path} {rest : List Errand} {fault : Fault} :
      fs.isDirectory entry = .error fault →
      Halts fs deepest ⟨seen, .look entry :: rest⟩ (some (.fault fault))
  /-- A directory cannot be told from others. -/
  | unidentified {seen : List Path} {dir : Path} {rest : List Errand} {fault : Fault} :
      identify fs deepest dir = .error fault →
      Halts fs deepest ⟨seen, .enter dir :: rest⟩ (some (.fault fault))
  /-- A directory cannot be listed. -/
  | unlisted {seen : List Path} {dir real : Path} {rest : List Errand} {e : AccessError} :
      identify fs deepest dir = .ok real → real ∉ seen → fs.list dir = .error e →
      Halts fs deepest ⟨seen, .enter dir :: rest⟩ (some (unlistable dir e))

/-- **What a step does comes first in the trail**, and the rest is the trail from where it leads. -/
theorem walk_of_step {p p' : Progress} {stage : Option Stage}
    (h : Step fs skip deepest p stage p') :
    walk fs skip deepest p.seen p.todo =
      ⟨stage.toList ++ (walk fs skip deepest p'.seen p'.todo).stages,
        (walk fs skip deepest p'.seen p'.todo).stopped⟩ := by
  cases h with
  | passBy hd hp =>
    rw [walk_look]
    simp [hd, hp]
  | turn hd hp =>
    rw [walk_look]
    simp [hd, hp]
  | find hd =>
    rw [walk_look]
    simp [hd, Trail.cons]
  | turnBack hi hs => exact walk_enter_seen hi hs
  | list hi hs hl => exact walk_enter_listed hi hs hl

/-- What a run does is the beginning of the trail. -/
theorem Run.walk_eq {n : Nat} {p p' : Progress} {stages : List Stage}
    (h : Run fs skip deepest n p stages p') :
    walk fs skip deepest p.seen p.todo =
      ⟨stages ++ (walk fs skip deepest p'.seen p'.todo).stages,
        (walk fs skip deepest p'.seen p'.todo).stopped⟩ := by
  induction h with
  | stay => rfl
  | step hstep _ ih =>
    rw [walk_of_step hstep, ih]
    simp

/-- **A trail is what the steps of a run do**, up to where there is no step. -/
theorem exists_run (fs : FileSystem) (skip : List String) (deepest : Nat) (seen : List Path)
    (todo : List Errand) :
    ∃ n p, Run fs skip deepest n ⟨seen, todo⟩ (walk fs skip deepest seen todo).stages p ∧
      Halts fs deepest p (walk fs skip deepest seen todo).stopped := by
  fun_induction walk fs skip deepest seen todo with
  | case1 seen => exact ⟨0, _, .stay, .done⟩
  | case2 seen entry rest fault hd => exact ⟨0, _, .stay, .untold hd⟩
  | case3 seen entry rest hd hp ih =>
    obtain ⟨n, p, hrun, hhalts⟩ := ih
    exact ⟨n + 1, p, .step (.passBy hd hp) hrun, hhalts⟩
  | case4 seen entry rest hd hp ih =>
    obtain ⟨n, p, hrun, hhalts⟩ := ih
    exact ⟨n + 1, p, .step (.turn hd (by simpa using hp)) hrun, hhalts⟩
  | case5 seen entry rest hd ih =>
    obtain ⟨n, p, hrun, hhalts⟩ := ih
    exact ⟨n + 1, p, .step (.find hd) hrun, hhalts⟩
  | case6 seen dir rest fault hi => exact ⟨0, _, .stay, .unidentified hi⟩
  | case7 seen dir rest real hi hs ih =>
    obtain ⟨n, p, hrun, hhalts⟩ := ih
    exact ⟨n + 1, p, .step (.turnBack hi hs) hrun, hhalts⟩
  | case8 seen dir rest real hi hs e he => exact ⟨0, _, .stay, .unlisted hi hs he⟩
  | case9 seen dir rest real hi hs l hl ih =>
    obtain ⟨n, p, hrun, hhalts⟩ := ih
    exact ⟨n + 1, p, .step (.list hi hs hl) hrun, hhalts⟩

/-! ### What steps use up -/

/-- **Every step makes what is to be done less.** -/
theorem Step.weight_lt {p p' : Progress} {stage : Option Stage}
    (h : Step fs skip deepest p stage p') :
    weight fs deepest p'.todo < weight fs deepest p.todo := by
  cases h with
  | passBy | turn | find =>
    simp only [weight_cons, Errand.weight]
    omega
  | turnBack =>
    have := one_le_directoryWeight fs.tree.entries.length
    simp only [weight_cons, Errand.weight]
    exact Nat.lt_add_of_pos_left (this _)
  | list hi _ hl =>
    rw [weight_append, weight_cons]
    exact Nat.add_lt_add_right (weight_errands_lt (identify_eq_ok.mp hi).1 hl) _

/-- A run has no more steps than there is to be done. -/
theorem Run.length_le {n : Nat} {p p' : Progress} {stages : List Stage}
    (h : Run fs skip deepest n p stages p') :
    n + weight fs deepest p'.todo ≤ weight fs deepest p.todo := by
  induction h with
  | stay => omega
  | step hstep _ ih =>
    have := hstep.weight_lt
    omega

/-- How many steps an errand takes, apart from what is in a directory: an entry may have to be
entered after it was looked at. -/
def Errand.cost : Errand → Nat
  | .enter _ => 1
  | .look _ => 2

/-- How many steps errands take together. -/
def cost (todo : List Errand) : Nat := todo.foldr (fun e n => e.cost + n) 0

/-- How many names there are in listings. -/
def namesIn (listings : List Listing) : Nat := listings.foldr (fun l n => l.names.length + n) 0

theorem cost_append (todo rest : List Errand) : cost (todo ++ rest) = cost todo + cost rest := by
  induction todo with
  | nil => simp [cost]
  | cons e todo ih =>
    simp only [cost, List.cons_append, List.foldr_cons] at ih ⊢
    omega

theorem cost_errands (l : Listing) : cost (errands l) = 2 * l.names.length := by
  unfold errands
  induction l.names with
  | nil => rfl
  | cons n names ih =>
    simp only [cost, List.map_cons, List.foldr_cons, List.length_cons, Errand.cost] at ih ⊢
    omega

/-- A step is one of those that an errand takes; what it lists takes more. -/
theorem Step.cost_lt {p p' : Progress} {stage : Option Stage}
    (h : Step fs skip deepest p stage p') :
    1 + cost p'.todo ≤ cost p.todo + 2 * namesIn (Trail.listings ⟨stage.toList, none⟩) := by
  have hcons : ∀ e rest, cost (e :: rest) = e.cost + cost rest := fun _ _ => rfl
  cases h with
  | passBy | turn | find | turnBack =>
    simp only [hcons, Errand.cost]
    omega
  | @list seen dir real rest l =>
    have hnames : namesIn (Trail.listings ⟨(some (Stage.listed l)).toList, none⟩) =
        l.names.length := rfl
    simp only [hcons, Errand.cost, cost_append, cost_errands, hnames]
    omega

theorem namesIn_append (a b : List Stage) :
    namesIn (Trail.listings ⟨a ++ b, none⟩) =
      namesIn (Trail.listings ⟨a, none⟩) + namesIn (Trail.listings ⟨b, none⟩) := by
  unfold Trail.listings
  rw [List.filterMap_append]
  induction List.filterMap _ a with
  | nil => simp [namesIn]
  | cons l listings ih =>
    simp only [namesIn, List.cons_append, List.foldr_cons] at ih ⊢
    omega

/-- **A run takes no more steps than its errands**, with two for each name that it lists. -/
theorem Run.cost_le {n : Nat} {p p' : Progress} {stages : List Stage}
    (h : Run fs skip deepest n p stages p') :
    n + cost p'.todo ≤ cost p.todo + 2 * namesIn (Trail.listings ⟨stages, none⟩) := by
  induction h with
  | stay => omega
  | step hstep _ ih =>
    have := hstep.cost_lt
    rw [namesIn_append]
    omega

/-- Members of two kinds, of which none is of both, are among those of either kind. -/
theorem countP_add_countP_le {α : Type} {p q r : α → Bool} (hp : ∀ x, p x → r x)
    (hq : ∀ x, q x → r x) (hpq : ∀ x, p x → ¬ q x) (xs : List α) :
    xs.countP p + xs.countP q ≤ xs.countP r := by
  induction xs with
  | nil => simp
  | cons x xs ih =>
    have hx : ¬ (p x ∧ q x) := fun h => hpq x h.1 h.2
    have hpx := hp x
    have hqx := hq x
    simp only [List.countP_cons]
    by_cases hpr : p x <;> by_cases hqr : q x <;> simp_all <;> omega

/-- Different directories have no more names than there are entries in them. -/
theorem namesIn_le {t : Tree} {listings : List Listing}
    (hnames : ∀ l ∈ listings, l.names = t.names l.real)
    (hnodup : (listings.map Listing.real).Nodup) :
    namesIn listings ≤ t.entries.countP fun e => e.place.dropLast ∈ listings.map Listing.real := by
  induction listings with
  | nil => exact Nat.zero_le _
  | cons l listings ih =>
    rw [List.map_cons, List.nodup_cons] at hnodup
    have hrest := ih (fun l' hl' => hnames l' (List.mem_cons_of_mem _ hl')) hnodup.2
    have hfirst : l.names.length ≤ t.entries.countP fun e => e.place.dropLast = l.real :=
      hnames l List.mem_cons_self ▸ t.length_names_le_countP l.real
    -- an entry lies in one directory only
    have hsplit : (t.entries.countP fun e => e.place.dropLast = l.real) +
        (t.entries.countP fun e => e.place.dropLast ∈ listings.map Listing.real) ≤
        t.entries.countP fun e => e.place.dropLast ∈ (l :: listings).map Listing.real := by
      refine countP_add_countP_le (fun e he => ?_) (fun e he => ?_) (fun e he he' => ?_) _
      · simpa using Or.inl (of_decide_eq_true he)
      · simpa using Or.inr (of_decide_eq_true he)
      · exact hnodup.1 (of_decide_eq_true he ▸ of_decide_eq_true he')
    show l.names.length + namesIn listings ≤ _
    omega

/-! ### A link that is too far away -/

/-- An entry of the root that leads to the root is listed again, if it is told by another canonical
path. -/
theorem not_nodup_of_entry {real real' : Path} {l l' : Listing} {n : String} {names : List String}
    (hi : fs.resolve root = .ok real) (hl : fs.list root = .ok l) (hnames : l.names = n :: names)
    (hd : fs.isDirectory (root.child n) = .ok true) (hp : isPassedBy skip n = false)
    (hdeep : 1 ≤ fs.deepest) (hi' : fs.resolve (root.child n) = .ok real') (hne : real' ≠ real)
    (hl' : fs.list (root.child n) = .ok l') (hsame : l'.real = l.real) :
    ¬ ((ofRoot fs skip root).listings.map Listing.real).Nodup := by
  have hroot : identify fs (root.segments.length + fs.deepest) root = .ok real :=
    identify_eq_ok.mpr ⟨Nat.le_add_right _ _, hi⟩
  have hentry : identify fs (root.segments.length + fs.deepest) (root.child n) = .ok real' := by
    refine identify_eq_ok.mpr ⟨?_, hi'⟩
    rw [Path.segments_child, List.length_append]
    exact Nat.add_le_add_left hdeep _
  obtain ⟨-, -, -, hpath⟩ := FileSystem.list_eq_ok hl
  have herrands : errands l =
      .look (root.child n) :: names.map fun name => .look (root.child name) := by
    rw [errands, hnames, hpath, List.map_cons]
  unfold ofRoot
  rw [walk_enter_listed hroot List.not_mem_nil hl, herrands, List.cons_append, walk_look, hd]
  simp only [Path.name_child, hp, Bool.false_eq_true, if_false]
  rw [walk_enter_listed hentry (by simpa using hne) hl', Trail.listings_listed,
    Trail.listings_listed, List.map_cons, List.map_cons, List.nodup_cons]
  exact fun h => h.1 (hsame ▸ List.mem_cons_self)

/-- A name of 250 bytes. -/
@[irreducible] def wide : String := String.ofList (List.replicate 250 'w')

/-- So many directories of this name inside each other. -/
def nested (n : Nat) : Location := List.replicate n wide

/-- A link to where it stands, in a directory whose path is longer than any that a machine can be
asked for, and a link on the way that leads to the directory. -/
def faraway : FileSystem where
  tree := ⟨(List.range 17).map (fun n => .of (nested (n + 1)) .directory) ++
    [.of (nested 17 ++ ["loop"]) (.link "."),
      .of (nested 8 ++ ["there"]) (.link (Path.slashed (nested 9)))]⟩
  cwd := []

theorem utf8ByteSize_replicate (n : Nat) :
    (String.ofList (List.replicate n 'w')).utf8ByteSize = n := by
  induction n with
  | zero => rfl
  | succ n ih =>
    have hlast : (String.ofList ['w']).utf8ByteSize = 1 := by decide
    rw [List.replicate_succ', String.ofList_append, String.utf8ByteSize_append, ih, hlast]

theorem utf8ByteSize_wide : wide.utf8ByteSize = 250 := by
  unfold wide
  exact utf8ByteSize_replicate 250

theorem wide_ne {s : String} (h : s.utf8ByteSize ≠ 250) : wide ≠ s := by
  rintro rfl
  exact h utf8ByteSize_wide

theorem isName_wide : IsName wide := by
  have hplain : ∀ c ∈ wide.toList, c = 'w' := fun c hc => by
    unfold wide at hc
    exact List.eq_of_mem_replicate (String.toList_ofList ▸ hc)
  exact ⟨wide_ne (by decide), wide_ne (by decide), wide_ne (by decide),
    fun h => absurd (hplain _ h) (by decide), fun h => absurd (hplain _ h) (by decide)⟩

theorem mem_nested {n : Nat} {s : String} (h : s ∈ nested n) : s = wide := List.eq_of_mem_replicate h

theorem mem_entries_faraway {e : Entry} (he : e ∈ faraway.tree.entries) :
    (∃ n < 17, e = .of (nested (n + 1)) .directory) ∨ e = .of (nested 17 ++ ["loop"]) (.link ".") ∨
      e = .of (nested 8 ++ ["there"]) (.link (Path.slashed (nested 9))) := by
  rcases List.mem_append.mp he with he | he
  · obtain ⟨n, hn, rfl⟩ := List.mem_map.mp he
    exact Or.inl ⟨n, List.mem_range.mp hn, rfl⟩
  · simpa using Or.inr he

theorem wellFormed_faraway : faraway.tree.WellFormed := by
  intro e he s hs
  rcases mem_entries_faraway he with ⟨n, -, rfl⟩ | rfl | rfl
  · rw [mem_nested hs]
    exact isName_wide
  · rcases List.mem_append.mp hs with hs | hs
    · rw [mem_nested hs]
      exact isName_wide
    · rw [List.mem_singleton.mp hs]
      decide +kernel
  · rcases List.mem_append.mp hs with hs | hs
    · rw [mem_nested hs]
      exact isName_wide
    · rw [List.mem_singleton.mp hs]
      decide +kernel

theorem hasDirectory_nested {n : Nat} (h : n ≤ 17) : faraway.tree.hasDirectory (nested n) = true := by
  cases n with
  | zero => rfl
  | succ n =>
    refine decide_eq_true (Tree.node?_eq_of_entries (by simp [nested]) ?_ fun e he hplace => ?_)
    · exact ⟨_, List.mem_append_left _ (List.mem_map_of_mem (List.mem_range.mpr h)), rfl⟩
    · -- the links have other names
      have hother : ∀ (loc : Location) (s : String), wide ≠ s → loc ++ [s] ≠ nested (n + 1) :=
        fun loc s hs heq => hs (mem_nested (heq ▸ List.mem_append_right loc List.mem_cons_self)).symm
      rcases mem_entries_faraway he with ⟨m, -, rfl⟩ | rfl | rfl
      · rfl
      · exact absurd hplace (hother _ _ (wide_ne (by decide)))
      · exact absurd hplace (hother _ _ (wide_ne (by decide)))

theorem node?_loop : faraway.tree.node? (nested 17 ++ ["loop"]) = some (.link ".") := by
  refine Tree.node?_eq_of_entries (by simp) ⟨_, List.mem_append_right _ List.mem_cons_self, rfl⟩
    fun e he hplace => ?_
  rcases mem_entries_faraway he with ⟨m, -, rfl⟩ | rfl | rfl
  · have hmem : "loop" ∈ nested (m + 1) := by
      rw [show nested (m + 1) = _ from hplace]
      exact List.mem_append_right _ List.mem_cons_self
    exact absurd (mem_nested hmem).symm (wide_ne (by decide))
  · rfl
  · exact absurd (List.append_inj' hplace rfl).2 (by decide)

theorem node?_there :
    faraway.tree.node? (nested 8 ++ ["there"]) = some (.link (Path.slashed (nested 9))) := by
  refine Tree.node?_eq_of_entries (by simp)
    ⟨_, List.mem_append_right _ (List.mem_cons_of_mem _ List.mem_cons_self), rfl⟩
    fun e he hplace => ?_
  rcases mem_entries_faraway he with ⟨m, -, rfl⟩ | rfl | rfl
  · have hmem : "there" ∈ nested (m + 1) := by
      rw [show nested (m + 1) = _ from hplace]
      exact List.mem_append_right _ List.mem_cons_self
    exact absurd (mem_nested hmem).symm (wide_ne (by decide))
  · exact absurd (List.append_inj' hplace rfl).2 (by decide)
  · rfl

theorem isReal_nested {n : Nat} (h : n ≤ 17) : IsReal faraway.tree (nested n) := by
  induction n with
  | zero => exact .root
  | succ n ih =>
    have hsplit : nested (n + 1) = nested n ++ [wide] := List.replicate_succ'
    have hnode : faraway.tree.node? (nested n ++ [wide]) = some .directory :=
      hsplit ▸ of_decide_eq_true (hasDirectory_nested h)
    rw [hsplit]
    exact .entry (ih (by omega)) (hasDirectory_nested (by omega)) isName_wide hnode (by simp)

theorem nested_append (m n : Nat) : nested m ++ nested n = nested (m + n) :=
  (List.replicate_add m n wide).symm

/-- The text of a path has 251 bytes for each nested directory. -/
theorem utf8ByteSize_text (n : Nat) {names : List String} (hne : names ≠ []) :
    (Path.text ⟨.root, nested n ++ names⟩).utf8ByteSize =
      1 + (251 * n + (Path.slashed names).utf8ByteSize) := by
  have hslashed : (Path.slashed (nested n ++ names)).utf8ByteSize =
      251 * n + (Path.slashed names).utf8ByteSize := by
    induction n with
    | zero => simp [nested]
    | succ n ih =>
      have hsplit : nested (n + 1) ++ names = [wide] ++ (nested n ++ names) := rfl
      have hslash : "/".utf8ByteSize = 1 := by decide
      rw [hsplit, Path.slashed_append (by simp) (by simp [hne]), String.utf8ByteSize_append,
        String.utf8ByteSize_append, Path.slashed_singleton, utf8ByteSize_wide, ih]
      omega
  have hroot : Anchor.root.text.utf8ByteSize = 1 := by decide
  rw [Path.text, if_neg (by simp), String.utf8ByteSize_append, hslashed, hroot]

/-- The directory as it is asked for: through the link on the way. -/
def farawayRoot : Path := ⟨.root, nested 8 ++ ["there"]⟩

/-- Whether a path below nested directories is too long is told by the sizes. -/
theorem isLongPath_text (n : Nat) {names : List String} (hne : names ≠ []) :
    AccessError.isLongPath (some 4095) (Path.text ⟨.root, nested n ++ names⟩) =
      decide (4095 < 1 + (251 * n + (Path.slashed names).utf8ByteSize)) := by
  rw [← utf8ByteSize_text n hne]
  rfl

theorem isLongPath_farawayRoot : AccessError.isLongPath (some 4095) farawayRoot.text = false :=
  (isLongPath_text 8 (by decide)).trans (by decide +kernel)

theorem isLongPath_loop :
    AccessError.isLongPath (some 4095) (farawayRoot.child "loop").text = false := by
  have hsegments : farawayRoot.child "loop" = ⟨.root, nested 8 ++ ["there", "loop"]⟩ := by
    simp [farawayRoot, Path.child]
  rw [hsegments, isLongPath_text 8 (by decide)]
  decide +kernel

/-- Written out, the directory is where the link on the way leads. -/
theorem trace_farawayRoot : ∃ links', faraway.tree.traceAtMost (some 4095) [] Fault.deepestNesting []
    ⟨.root, []⟩ farawayRoot.segments = .complete links' ⟨.root, nested 17⟩ := by
  have hback : IsReal faraway.tree (nested 8 ++ nested 9) :=
    nested_append 8 9 ▸ isReal_nested (by decide)
  exact nested_append 8 9 ▸ Tree.trace_of_link 979 (isReal_nested (by decide))
    (by decide +kernel) node?_there isLongPath_farawayRoot (by simp [nested]) hback

theorem absolute_nested (names : List String) (h : ∀ s ∈ names, s ≠ "..") (n : Nat) :
    Path.absolute [] ⟨.root, nested n ++ names⟩ = ⟨.root, nested n ++ names⟩ := by
  refine congrArg (Path.mk .root) (Path.collapse_of_not_mem fun hdots => ?_)
  rcases List.mem_append.mp hdots with hdots | hdots
  · exact isName_wide.ne_dots (mem_nested hdots).symm
  · exact h _ hdots rfl

theorem canonical_farawayRoot :
    faraway.tree.canonical (some 4095) [] farawayRoot = .ok ⟨.root, nested 17⟩ := by
  obtain ⟨links', htrace⟩ := trace_farawayRoot
  have hself := absolute_nested [] (by simp) 17
  rw [List.append_nil] at hself
  rw [Tree.canonical_of_trace rfl htrace, hself]

/-- The path of the link in the directory is too long, so it is not seen that there is one. -/
theorem canonical_loop :
    faraway.tree.canonical (some 4095) [] (farawayRoot.child "loop") =
      .ok ⟨.root, nested 17 ++ ["loop"]⟩ := by
  obtain ⟨links', htrace⟩ := trace_farawayRoot
  have hlong : AccessError.isLongPath (some 4095)
      (Path.child ⟨.root, nested 17⟩ "loop").text = true :=
    (isLongPath_text 17 (by decide)).trans (by decide +kernel)
  have hloc : Tree.locationOf [] (Path.child ⟨.root, nested 17⟩ "loop") = nested 17 ++ ["loop"] :=
    congrArg Path.segments (absolute_nested ["loop"] (by decide) 17)
  have hchild : faraway.tree.traceAtMost (some 4095) [] Fault.deepestNesting [] ⟨.root, []⟩
      (farawayRoot.child "loop").segments = .complete links' ⟨.root, nested 17 ++ ["loop"]⟩ :=
    (Tree.trace_append htrace).trans (Tree.trace_of_isLongPath
      (Tree.isPlain_of_isName (by decide +kernel)) (hloc ▸ node?_loop) hlong)
  rw [Tree.canonical_of_trace rfl hchild, absolute_nested ["loop"] (by decide) 17]

theorem leadsIn_farawayRoot : LeadsIn faraway.tree 1 [] farawayRoot.segments (nested 17) := by
  have hback : IsReal faraway.tree (nested 8 ++ nested 9) :=
    nested_append 8 9 ▸ isReal_nested (by decide)
  exact nested_append 8 9 ▸ Tree.leadsIn_of_link (isReal_nested (by decide))
    (hasDirectory_nested (by decide)) (by decide +kernel) node?_there (by simp [nested]) hback

theorem locate_farawayRoot : faraway.locate farawayRoot = .ok (nested 17) :=
  FileSystem.locate_eq_ok.mpr ⟨⟨1, by decide, leadsIn_farawayRoot⟩, isLongPath_farawayRoot⟩

theorem leadsIn_loop : LeadsIn faraway.tree 1 (nested 17) ["loop"] (nested 17) :=
  .link (hasDirectory_nested (by decide)) (Tree.isPlain_of_isName (by decide +kernel)) node?_loop
    (.stay (hasDirectory_nested (by decide)) (Or.inl rfl) .done)

theorem locate_loop : faraway.locate (farawayRoot.child "loop") = .ok (nested 17) :=
  FileSystem.locate_eq_ok.mpr
    ⟨⟨2, by decide, leadsIn_farawayRoot.append leadsIn_loop⟩, isLongPath_loop⟩

theorem list_of_locate_nested {p : Path} (h : faraway.locate p = .ok (nested 17)) :
    faraway.list p = .ok ⟨p, nested 17, faraway.tree.names (nested 17)⟩ :=
  FileSystem.list_of_locate (FileSystem.isDenied_of_nil rfl p) h (hasDirectory_nested (by decide))

/-- All that the directory holds is the link. -/
theorem names_nested : faraway.tree.names (nested 17) = ["loop"] := by
  refine StringSet.eq_of_ordered (StringSet.ordered _) (List.pairwise_singleton _ _) fun s => ?_
  rw [Tree.mem_names, List.mem_singleton]
  refine ⟨fun h => ?_, fun h => h ▸ node?_loop ▸ rfl⟩
  obtain ⟨n, hn⟩ := Option.isSome_iff_exists.mp h
  obtain ⟨e, he, hplace⟩ := Tree.exists_entry_of_node? (by simp) hn
  have hlength := congrArg List.length hplace
  rcases mem_entries_faraway he with ⟨m, hm, hentry⟩ | hentry | hentry
  · rw [hentry] at hlength
    simp only [Entry.of, nested, List.length_replicate, List.length_append, List.length_singleton]
      at hlength
    omega
  · rw [hentry] at hplace
    exact (List.cons.inj (List.append_cancel_left hplace)).1.symm
  · rw [hentry] at hlength
    simp [Entry.of, nested] at hlength

theorem resolve_farawayRoot : faraway.resolve farawayRoot = .ok ⟨.root, nested 17⟩ :=
  FileSystem.resolve_of_canonical (Nat.zero_le _) canonical_farawayRoot
    (isReal_nested (by decide)).leadsIn

theorem resolve_loop :
    faraway.resolve (farawayRoot.child "loop") = .ok ⟨.root, nested 17 ++ ["loop"]⟩ :=
  FileSystem.resolve_of_canonical (by decide) canonical_loop
    ((isReal_nested (by decide)).leadsIn.append leadsIn_loop)

/-! ### The end -/

/-- The walk of a trail ends: the trail is what a run does up to where there is no step, and there is
a bound on the steps of all runs. -/
structure Ends (fs : FileSystem) (skip : List String) (root : Path) (t : Trail) : Prop where
  /-- The trail is told by a run from the root to where there is no step. -/
  complete : ∃ n p, Run fs skip (root.segments.length + fs.deepest) n (.start root) t.stages p ∧
    Halts fs (root.segments.length + fs.deepest) p t.stopped
  /-- No run from the root goes on beyond a bound. -/
  bounded : ∃ most, ∀ n stages p,
    Run fs skip (root.segments.length + fs.deepest) n (.start root) stages p → n ≤ most
  /-- No canonical path is that of two directories which are listed. -/
  told : ∀ n stages p, Run fs skip (root.segments.length + fs.deepest) n (.start root) stages p →
    ((Trail.listings ⟨stages, none⟩).map fun l => fs.resolve l.path).Nodup

/-- A walk lists each directory once, as far as it goes. -/
structure ListsOnce (fs : FileSystem) (skip : List String) (root : Path) : Prop where
  /-- No run from the root has more steps than a bound that is linear in the tree. -/
  linear : ∀ n stages p, Run fs skip (root.segments.length + fs.deepest) n (.start root) stages p →
    n ≤ 2 * fs.tree.entries.length + 1
  /-- No directory is listed twice. -/
  once : ∀ n stages p, Run fs skip (root.segments.length + fs.deepest) n (.start root) stages p →
    ((Trail.listings ⟨stages, none⟩).map Listing.real).Nodup
  /-- There are no more listings than directories. -/
  few : ∀ n stages p, Run fs skip (root.segments.length + fs.deepest) n (.start root) stages p →
    (Trail.listings ⟨stages, none⟩).length ≤ fs.tree.realDirectories.card

/-- A run from the root lists what the walk lists, as far as it goes. -/
theorem Run.listings_sublist {n : Nat} {p : Progress} {stages : List Stage}
    (h : Run fs skip (root.segments.length + fs.deepest) n (.start root) stages p) :
    (Trail.listings ⟨stages, none⟩).Sublist (ofRoot fs skip root).listings := by
  have heq : ofRoot fs skip root = _ := h.walk_eq
  rw [heq]
  exact (List.sublist_append_left _ _).filterMap _

/-- What is listed is a directory of the tree. -/
theorem mem_realDirectories_of_listed (hwf : fs.tree.WellFormed) (hcwd : IsReal fs.tree fs.cwd)
    {l : Listing} (hl : l ∈ (ofRoot fs skip root).listings) :
    l.real ∈ fs.tree.realDirectories := by
  obtain ⟨hloc, hdir, -, -⟩ := FileSystem.list_eq_ok (list_of_mem_listings hl)
  exact (Tree.mem_realDirectories hwf).mpr ⟨FileSystem.isReal_of_locate hwf hcwd hloc, hdir⟩

/-- A walk lists each directory once if all paths that it comes to resolve in full. -/
theorem listsOnce (hwf : fs.tree.WellFormed) (hcwd : IsReal fs.tree fs.cwd)
    (hfull : ∀ dir, ComesTo fs skip root dir → fs.ResolvesInFull dir) : ListsOnce fs skip root := by
  have honce : ∀ n stages p,
      Run fs skip (root.segments.length + fs.deepest) n (.start root) stages p →
      ((Trail.listings ⟨stages, none⟩).map Listing.real).Nodup := fun n stages p hrun =>
    (hrun.listings_sublist.map _).nodup (nodup_real hwf hcwd hfull)
  refine ⟨fun n stages p hrun => ?_, honce, fun n stages p hrun => ?_⟩
  · have hnames : ∀ l ∈ Trail.listings ⟨stages, none⟩, l.names = fs.tree.names l.real := fun l hl =>
      (FileSystem.list_eq_ok (list_of_mem_listings (hrun.listings_sublist.subset hl))).2.2.1
    have hfew := Nat.le_trans (namesIn_le hnames (honce n stages p hrun)) List.countP_le_length
    have hcost := hrun.cost_le
    have hstart : cost (Progress.start root).todo = 1 := rfl
    omega
  · rw [← List.length_map (f := Listing.real),
      ← List.toFinset_card_of_nodup (honce n stages p hrun)]
    refine Finset.card_le_card fun d hd => ?_
    obtain ⟨l, hl, rfl⟩ := List.mem_map.mp (List.mem_toFinset.mp hd)
    exact mem_realDirectories_of_listed hwf hcwd (hrun.listings_sublist.subset hl)

/-- **A walk ends**, whatever links lead around in circles.  If the bound on the length of paths makes
no difference to where the directories that it comes to really are, then no run of it, complete or
not, has more steps than a bound that is linear in the size of the tree, lists a directory twice, or
lists more directories than there are. -/
theorem traverse_ends (hwf : fs.tree.WellFormed) (hcwd : IsReal fs.tree fs.cwd) {names : Value}
    (hskip : skipNames names = .ok skip) (root : Path) :
    ∃ t, traverse fs names root = t.traced ∧ Ends fs skip root t ∧
      ((∀ dir, ComesTo fs skip root dir → fs.ResolvesInFull dir) → ListsOnce fs skip root) := by
  have htrail : trail fs names root = ofRoot fs skip root := by
    unfold trail
    rw [hskip]
  refine ⟨ofRoot fs skip root, congrArg Trail.traced htrail, ⟨?_, ?_, ?_⟩, listsOnce hwf hcwd⟩
  · exact exists_run fs skip _ [] [.enter root]
  · exact ⟨_, fun n stages p hrun => Nat.le_trans (Nat.le_add_right n _) hrun.length_le⟩
  · intro n stages p hrun
    exact (hrun.listings_sublist.map _).nodup (nodup_listings fs skip _ [] [.enter root]).1

/-- A link to what is around it is followed, and the walk comes to its end. -/
theorem traverse_ends_roundabout :
    roundabout.tree.realDirectories.card = 3 ∧
      ∃ t, traverse roundabout (.texts []) ⟨.current, ["src"]⟩ = t.traced ∧
        Ends roundabout [] ⟨.current, ["src"]⟩ t ∧ ListsOnce roundabout [] ⟨.current, ["src"]⟩ := by
  have hwf : roundabout.tree.WellFormed := by decide +kernel
  have hbounds : InBounds roundabout [] ⟨.current, ["src"]⟩ :=
    inBounds_of_staysInBounds (by decide +kernel)
  obtain ⟨t, ht, hends, honce⟩ :=
    traverse_ends hwf .root (skipNames_texts []) ⟨.current, ["src"]⟩
  exact ⟨by decide +kernel, t, ht, hends, honce hbounds.canonical⟩

/-- **Below a path that is too long, a directory may be listed twice.** -/
theorem not_once_faraway : ¬ ∀ (fs : FileSystem) (skip : List String) (root : Path),
    fs.tree.WellFormed → IsReal fs.tree fs.cwd → fs.isDirectory root = .ok true →
      ((ofRoot fs skip root).listings.map Listing.real).Nodup := by
  intro hall
  have hdir : ∀ {p}, faraway.locate p = .ok (nested 17) → faraway.isDirectory p = .ok true := fun h =>
    FileSystem.isDirectory_eq_true.mpr ⟨_, h, hasDirectory_nested (by decide)⟩
  have honce := hall faraway [] farawayRoot wellFormed_faraway .root (hdir locate_farawayRoot)
  exact not_nodup_of_entry resolve_farawayRoot (list_of_locate_nested locate_farawayRoot)
    names_nested (hdir locate_loop) (by decide +kernel) (by decide) resolve_loop
    (fun h => absurd (congrArg (List.length ∘ Path.segments) h) (by simp))
    (list_of_locate_nested locate_loop) rfl honce

end Walk

end Unimported
