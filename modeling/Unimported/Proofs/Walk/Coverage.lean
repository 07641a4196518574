import Unimported.Proofs.FileSystem.Located
import Unimported.Proofs.Outcome
import Unimported.Proofs.Walk.Handled
import Unimported.Proofs.Walk.Order

/-!
# What a walk covers

A walk lists every directory that its root leads to by entries that are not passed by, each once
under whatever path it meets first, and it finds every entry of these directories that leads to
none.  This holds as long as no bound of the machine stands in the way: a bound on the length of
names and paths stops the walk or keeps it from seeing that two paths lead to one directory, a bound
on the number of links turns directories into files, and so many directories inside each other are
too deep for a walk.

## Main definitions

* `Walk.Reached` — the directories that a walk has to list, as the least set.
* `Walk.LeadsToDirectory` — an entry is a directory, links followed.
* `Walk.ComesTo` — the paths under which a walk comes to directories.
* `Walk.InBounds` — no bound keeps a walk from entering directories and telling them apart.
* `Walk.Unhindered` — nor is there one on links that turns directories into files.

## Main results

* `Walk.located_of_mem_listings` — whatever is listed has to be.
* `Walk.resolve_of_mem_listings` — directories are told by where they are, if all paths resolve in
  full.
* `Walk.denied_of_ofRoot_stopped` — within the bounds, only a denied directory stops a walk.
* `Walk.isDirectory_iff` — without a bound in the way, entries are taken for what they are.
* `Walk.traverse_exact` — **a walk is complete, exact, in order, and finds nothing twice.**
-/

namespace Unimported.Walk

open Tree (IsReal)

/-- The directories that a walk has to list: where it starts and, with a directory, each that one
of its entries leads to, unless the entry is passed by because of its name. -/
inductive Reached (t : Tree) (skip : List String) (start : Location) : Location → Prop where
  /-- Where the walk starts. -/
  | start : Reached t skip start start
  /-- A directory that an entry leads to. -/
  | entry {dir real : Location} {n : String} :
      Reached t skip start dir → n ∈ t.names dir → isPassedBy skip n = false →
      t.Leads dir [n] real → t.hasDirectory real = true → Reached t skip start real

/-- An entry of a directory leads to a directory, links followed. -/
def LeadsToDirectory (t : Tree) (dir : Location) (n : String) : Prop :=
  ∃ real, t.Leads dir [n] real ∧ t.hasDirectory real = true

/-- The paths under which a walk comes to directories: its root and, in a directory that it lists,
each entry that is a directory and is not passed by. -/
inductive ComesTo (fs : FileSystem) (skip : List String) (root : Path) : Path → Prop where
  /-- The root. -/
  | root : ComesTo fs skip root root
  /-- An entry of a directory that is listed. -/
  | entry {l : Listing} {n : String} : l ∈ (ofRoot fs skip root).listings → n ∈ l.names →
      fs.isDirectory (l.path.child n) = .ok true → isPassedBy skip n = false →
      ComesTo fs skip root (l.path.child n)

/-- No bound of the machine keeps a walk from entering directories and telling them apart.  The length
of paths makes no difference to where the directories that it comes to really are; none of these lies
too deep; and no entry is asked for under a path, or by way of a name, that is too long. -/
structure InBounds (fs : FileSystem) (skip : List String) (root : Path) : Prop where
  canonical : ∀ dir, ComesTo fs skip root dir → fs.ResolvesInFull dir
  shallow : ∀ dir, ComesTo fs skip root dir →
    dir.segments.length ≤ root.segments.length + fs.deepest
  short : ∀ l ∈ (ofRoot fs skip root).listings, ∀ n ∈ l.names,
    fs.locate (l.path.child n) ≠ .error .nameTooLong

/-- No bound of the machine stands in the way of a walk at all: an entry that is refused because of
too many links leads nowhere. -/
structure Unhindered (fs : FileSystem) (skip : List String) (root : Path) : Prop
    extends InBounds fs skip root where
  links : ∀ l ∈ (ofRoot fs skip root).listings, ∀ n ∈ l.names,
    fs.locate (l.path.child n) = .error .tooManyLinks → ∀ found, ¬ fs.tree.Leads l.real [n] found

variable {fs : FileSystem} {skip : List String} {root : Path} {real : Location}

/-! ### Only what is reached is listed -/

/-- An errand stems from a directory that is reached. -/
def Errand.Stems (fs : FileSystem) (skip : List String) (start : Location) : Errand → Prop
  | .enter dir => ∃ real, fs.locate dir = .ok real ∧ Reached fs.tree skip start real
  | .look entry => ∃ dir real n, fs.locate dir = .ok real ∧ Reached fs.tree skip start real ∧
      n ∈ fs.tree.names real ∧ entry = dir.child n

theorem handedOn_stems (fs : FileSystem) (skip : List String) (start : Location) :
    HandedOn fs skip (Errand.Stems fs skip start) where
  enter := by
    rintro entry ⟨dir, real, n, hdir, hreached, hn, rfl⟩ hd hp
    obtain ⟨found, hfound, hdirectory⟩ := FileSystem.isDirectory_eq_true.mp hd
    rw [Path.name_child] at hp
    exact ⟨found, hfound,
      .entry hreached hn hp (FileSystem.leads_of_locate_child hdir hfound) hdirectory⟩
  errands := by
    rintro dir l ⟨real, hdir, hreached⟩ hl e he
    obtain ⟨hreal, -, hnames, hpath⟩ := FileSystem.list_eq_ok hl
    obtain ⟨n, hn, rfl⟩ := List.mem_map.mp he
    obtain rfl := Except.ok.inj (hdir.symm.trans hreal)
    exact ⟨dir, l.real, n, hdir, hreached, hnames ▸ hn, by rw [hpath]⟩

/-- What is known of a directory that was listed. -/
theorem located_of_mem_listings {l : Listing} (hroot : fs.locate root = .ok real)
    (hl : l ∈ (ofRoot fs skip root).listings) :
    fs.locate l.path = .ok l.real ∧ l.names = fs.tree.names l.real ∧
      Reached fs.tree skip real l.real := by
  have hstart : ∀ e ∈ [Errand.enter root], Errand.Stems fs skip real e := by
    intro e he
    rw [List.mem_singleton.mp he]
    exact ⟨real, hroot, .start⟩
  obtain ⟨⟨real', hreal', hreached⟩, hlist⟩ :=
    (handedOn_stems fs skip real).stages [] _ hstart _ (Trail.mem_listings.mp hl)
  obtain ⟨hreal, -, hnames, -⟩ := FileSystem.list_eq_ok hlist
  obtain rfl := Except.ok.inj (hreal'.symm.trans hreal)
  exact ⟨hreal, hnames, hreached⟩

/-! ### Directories are told by where they are -/

/-- A walk comes to whatever it lists. -/
theorem comesTo_of_mem_listings {l : Listing} (hl : l ∈ (ofRoot fs skip root).listings) :
    ComesTo fs skip root l.path := by
  obtain ⟨hreal, hd, -, -⟩ := FileSystem.list_eq_ok (list_of_mem_listings hl)
  have hdir := FileSystem.isDirectory_eq_true.mpr ⟨l.real, hreal, hd⟩
  rcases exists_entry_of_mem_listings hl with h | ⟨l', hl', n, hn, h, hp⟩
  · rw [h]
    exact .root
  · rw [h] at hdir ⊢
    exact .entry hl' hn hdir hp

section InFull

variable (hwf : fs.tree.WellFormed) (hcwd : IsReal fs.tree fs.cwd)
  (hfull : ∀ dir, ComesTo fs skip root dir → fs.ResolvesInFull dir)

include hwf hcwd hfull

/-- **A directory that is listed is told by where it is**, if all paths that the walk comes to resolve
in full. -/
theorem resolve_of_mem_listings {l : Listing} (hl : l ∈ (ofRoot fs skip root).listings) :
    fs.resolve l.path = .ok ⟨.root, l.real⟩ :=
  FileSystem.resolve_of_locate hwf hcwd (hfull _ (comesTo_of_mem_listings hl))
    (FileSystem.list_eq_ok (list_of_mem_listings hl)).1

/-- No directory is listed twice. -/
theorem nodup_real : ((ofRoot fs skip root).listings.map Listing.real).Nodup := by
  have hnodup := (nodup_listings fs skip (root.segments.length + fs.deepest) [] [.enter root]).1
  have hsame : ((ofRoot fs skip root).listings.map fun l => fs.resolve l.path) =
      ((ofRoot fs skip root).listings.map Listing.real).map fun real => .ok ⟨.root, real⟩ := by
    rw [List.map_map]
    exact List.map_congr_left fun l hl => resolve_of_mem_listings hwf hcwd hfull hl
  exact (List.pairwise_map.mp (hsame ▸ hnodup)).imp fun hne h => hne (by rw [h])

/-- What covers a directory that the walk comes to is a listing of it. -/
theorem exists_listing_of_resolve {dir q : Path} (hdir : ComesTo fs skip root dir)
    (hreal : fs.locate dir = .ok real) (hq : fs.resolve dir = .ok q) {l : Listing}
    (hl : l ∈ (ofRoot fs skip root).listings) (h : fs.resolve l.path = .ok q) : l.real = real := by
  have hplace := FileSystem.resolve_of_locate hwf hcwd (hfull dir hdir) hreal
  rw [hq, ← h, resolve_of_mem_listings hwf hcwd hfull hl] at hplace
  exact congrArg Path.segments (Except.ok.inj hplace)

end InFull

/-! ### Everything that is reached is listed -/

/-- Without a bound in the way, entries are taken for what they are. -/
theorem isDirectory_iff (hwf : fs.tree.WellFormed) (hroot : fs.locate root = .ok real)
    (hbounds : Unhindered fs skip root) {l : Listing} (hl : l ∈ (ofRoot fs skip root).listings)
    {n : String} (hn : n ∈ l.names) :
    ∃ b, fs.isDirectory (l.path.child n) = .ok b ∧
      (b = true ↔ LeadsToDirectory fs.tree l.real n) := by
  obtain ⟨hreal, -, -⟩ := located_of_mem_listings hroot hl
  have hshort := hbounds.short l hl n hn
  cases hfound : fs.locate (l.path.child n) with
  | ok found =>
    refine ⟨_, FileSystem.isDirectory_of_locate hfound, ?_⟩
    have hleads := FileSystem.leads_of_locate_child hreal hfound
    constructor
    · exact fun hd => ⟨found, hleads, hd⟩
    · rintro ⟨found', hleads', hd⟩
      obtain rfl := hleads.unique hleads'
      exact hd
  | error e =>
    have hne : e ≠ .nameTooLong := by
      rintro rfl
      exact hshort hfound
    refine ⟨false, FileSystem.isDirectory_of_error hfound hne, ?_⟩
    -- what leads somewhere would have been found
    refine ⟨fun h => (Bool.false_ne_true h).elim, fun ⟨found, hleads, _⟩ => ?_⟩
    have hlinks : fs.locate (l.path.child n) ≠ .error .tooManyLinks := fun h =>
      hbounds.links l hl n hn h found hleads
    have hok := FileSystem.locate_child_of_leads hwf hreal hleads hshort hlinks
    rw [hfound] at hok
    cases hok

/-- A directory that a walk comes to can be entered within the bounds. -/
theorem InBounds.enterable (hbounds : InBounds fs skip root) (hwf : fs.tree.WellFormed)
    (hcwd : IsReal fs.tree fs.cwd) {dir : Path} (hcomes : ComesTo fs skip root dir)
    (hd : fs.isDirectory dir = .ok true) :
    Enterable fs (root.segments.length + fs.deepest) dir := by
  obtain ⟨place, hplace, -⟩ := FileSystem.isDirectory_eq_true.mp hd
  exact ⟨hd, _, identify_eq_ok.mpr ⟨hbounds.shallow dir hcomes,
    FileSystem.resolve_of_locate hwf hcwd (hbounds.canonical dir hcomes) hplace⟩⟩

/-- **Within the bounds, only a denied directory stops a walk** from a directory. -/
theorem denied_of_ofRoot_stopped (hwf : fs.tree.WellFormed) (hcwd : IsReal fs.tree fs.cwd)
    (hdir : fs.isDirectory root = .ok true) (hbounds : InBounds fs skip root) {e : Failure}
    (h : (ofRoot fs skip root).stopped = some e) :
    ∃ dir, fs.isDirectory dir = .ok true ∧ fs.isDenied dir = true ∧ e = unlistable dir .denied := by
  refine denied_of_stopped (fun errand he => ?_) (fun l hl errand he => ?_) h
  · rw [List.mem_singleton.mp he]
    exact hbounds.enterable hwf hcwd .root hdir
  · obtain ⟨n, hn, rfl⟩ := List.mem_map.mp he
    refine ⟨FileSystem.exists_isDirectory (hbounds.short l hl n hn), fun hd hp => ?_⟩
    rw [Path.name_child] at hp
    exact hbounds.enterable hwf hcwd (.entry hl hn hd hp) hd

/-- Within the bounds and with no directory denied, a walk from a directory is not stopped. -/
theorem ofRoot_stopped (hwf : fs.tree.WellFormed) (hcwd : IsReal fs.tree fs.cwd)
    (hdir : fs.isDirectory root = .ok true)
    (hopen : ∀ p, fs.isDirectory p = .ok true → fs.isDenied p = false)
    (hbounds : InBounds fs skip root) : (ofRoot fs skip root).stopped = none := by
  cases hstop : (ofRoot fs skip root).stopped with
  | none => rfl
  | some e =>
    obtain ⟨dir, hd, hdenied, -⟩ := denied_of_ofRoot_stopped hwf hcwd hdir hbounds hstop
    rw [hopen dir hd] at hdenied
    cases hdenied

/-- A walk that ends was asked for no entry under a path, or by way of a name, that is too long. -/
theorem short_of_stopped (hstop : (ofRoot fs skip root).stopped = none) :
    ∀ l ∈ (ofRoot fs skip root).listings, ∀ n ∈ l.names,
      fs.locate (l.path.child n) ≠ .error .nameTooLong := by
  intro l hl n hn herror
  obtain ⟨⟨b, hb⟩, -⟩ := (handled hstop).2 l hl (.look (l.path.child n)) (List.mem_map_of_mem hn)
  unfold FileSystem.isDirectory FileSystem.node? at hb
  rw [herror] at hb
  cases hb

/-- A walk that ends came to no directory that lies too deep. -/
theorem shallow_of_stopped (hstop : (ofRoot fs skip root).stopped = none) {dir : Path}
    (h : ComesTo fs skip root dir) : dir.segments.length ≤ root.segments.length + fs.deepest := by
  cases h with
  | root => exact Nat.le_add_right _ _
  | @entry l n hl hn hd hp =>
    obtain ⟨-, -, hentered⟩ := (handled hstop).2 l hl (.look (l.path.child n)) (List.mem_map_of_mem hn)
    obtain ⟨q, hq, -⟩ := hentered hd (by rwa [Path.name_child])
    exact (identify_eq_ok.mp hq).1

/-- **The directories that are listed** are those that are reached. -/
theorem listed_iff_reached (hwf : fs.tree.WellFormed) (hcwd : IsReal fs.tree fs.cwd)
    (hroot : fs.locate root = .ok real) (hbounds : Unhindered fs skip root)
    (hstop : (ofRoot fs skip root).stopped = none) (dir : Location) :
    (∃ l ∈ (ofRoot fs skip root).listings, l.real = dir) ↔ Reached fs.tree skip real dir := by
  obtain ⟨hfirst, hlisted⟩ := handled hstop
  have hcovered : ∀ {p q : Path} {place : Location}, ComesTo fs skip root p →
      fs.locate p = .ok place → identify fs (root.segments.length + fs.deepest) p = .ok q →
      (ofRoot fs skip root).Covers fs [] q → ∃ l ∈ (ofRoot fs skip root).listings, l.real = place := by
    intro p q place hcomes hplace hq hc
    obtain ⟨l, hl, hsame⟩ := hc.resolve_left List.not_mem_nil
    exact ⟨l, hl, exists_listing_of_resolve hwf hcwd hbounds.canonical hcomes hplace
      (identify_eq_ok.mp hq).2 hl hsame⟩
  constructor
  · rintro ⟨l, hl, rfl⟩
    exact (located_of_mem_listings hroot hl).2.2
  · intro h
    induction h with
    | start =>
      obtain ⟨q, hq, hc⟩ := hfirst _ List.mem_cons_self
      exact hcovered .root hroot hq hc
    | @entry dir found n _ hn hp hleads hd ih =>
      obtain ⟨l, hl, rfl⟩ := ih
      obtain ⟨hreal, hnames, -⟩ := located_of_mem_listings hroot hl
      have hmem : n ∈ l.names := hnames ▸ hn
      obtain ⟨b, hb, hiff⟩ := isDirectory_iff hwf hroot hbounds hl hmem
      obtain rfl := hiff.mpr ⟨found, hleads, hd⟩
      obtain ⟨-, -, hentered⟩ := hlisted l hl (.look (l.path.child n)) (List.mem_map_of_mem hmem)
      obtain ⟨q, hq, hc⟩ := hentered hb (by rwa [Path.name_child])
      -- the entry was found where it leads
      obtain ⟨found', hfound', -⟩ := FileSystem.isDirectory_eq_true.mp hb
      obtain rfl := hleads.unique (FileSystem.leads_of_locate_child hreal hfound')
      exact hcovered (.entry hl hmem hb hp) hfound' hq hc

/-- **The files that are found** are the entries of the listed directories that lead to none. -/
theorem mem_files_iff (hwf : fs.tree.WellFormed) (hroot : fs.locate root = .ok real)
    (hbounds : Unhindered fs skip root) (hstop : (ofRoot fs skip root).stopped = none) (f : Path) :
    f ∈ (ofRoot fs skip root).files ↔
      ∃ l ∈ (ofRoot fs skip root).listings, ∃ n ∈ l.names,
        f = l.path.child n ∧ ¬ LeadsToDirectory fs.tree l.real n := by
  constructor
  · intro hf
    obtain ⟨hfile, hlook | ⟨l, hl, hlook⟩⟩ := exists_of_mem_files hf
    · cases List.mem_singleton.mp hlook
    · obtain ⟨n, hn, he⟩ := List.mem_map.mp hlook
      obtain rfl : l.path.child n = f := Errand.look.inj he
      obtain ⟨b, hb, hiff⟩ := isDirectory_iff hwf hroot hbounds hl hn
      obtain rfl := Except.ok.inj (hb.symm.trans hfile)
      exact ⟨l, hl, n, hn, rfl, fun h => Bool.false_ne_true (hiff.mpr h)⟩
  · rintro ⟨l, hl, n, hn, rfl, hnot⟩
    obtain ⟨b, hb, hiff⟩ := isDirectory_iff hwf hroot hbounds hl hn
    obtain rfl : b = false := by
      cases b with
      | true => exact absurd (hiff.mp rfl) hnot
      | false => rfl
    obtain ⟨-, hfound, -⟩ := (handled hstop).2 l hl (.look (l.path.child n)) (List.mem_map_of_mem hn)
    exact hfound hb

/-! ### Walks from a directory -/

/-- The trail below a root, where names are to be skipped. -/
theorem trail_texts (fs : FileSystem) (skip : List String) (root : Path) :
    trail fs (.texts skip) root = ofRoot fs skip root := by
  unfold trail
  rw [skipNames_texts]

/-- What a walk from a root finds is complete and exact: it lists the directories that are reached,
each once and under a path that leads to it, and it finds the entries of these that lead to no
directory, in the order of the entries, each once, and none below a directory that is hidden or
skipped. -/
structure Exact (fs : FileSystem) (skip : List String) (root : Path) (files : List Path)
    (real : Location) : Prop where
  resolved : fs.resolve root = .ok ⟨.root, real⟩
  listed : ∀ dir, (∃ l ∈ (trail fs (.texts skip) root).listings, l.real = dir) ↔
    Reached fs.tree skip real dir
  listed_once : ((trail fs (.texts skip) root).listings.map Listing.real).Nodup
  located : ∀ l ∈ (trail fs (.texts skip) root).listings, fs.locate l.path = .ok l.real
  found : ∀ f, f ∈ files ↔ ∃ l ∈ (trail fs (.texts skip) root).listings,
    ∃ n ∈ fs.tree.names l.real, f = l.path.child n ∧ ¬ LeadsToDirectory fs.tree l.real n
  ordered : files.Pairwise Path.Precedes
  found_once : files.Nodup
  visible : ∀ f ∈ files, ∃ way name, (∀ n ∈ way, isPassedBy skip n = false) ∧
    f = ⟨root.anchor, root.segments ++ way ++ [name]⟩

/-- **A walk is complete and exact**, from any directory, with no directory denied and no bound in
the way. -/
theorem traverse_exact (hwf : fs.tree.WellFormed) (hcwd : IsReal fs.tree fs.cwd)
    (hdir : fs.isDirectory root = .ok true)
    (hopen : ∀ p, fs.isDirectory p = .ok true → fs.isDenied p = false)
    (hbounds : Unhindered fs skip root) :
    ∃ files real, (traverse fs (.texts skip) root).outcome = .ok files ∧
      Exact fs skip root files real := by
  obtain ⟨real, hroot, -⟩ := FileSystem.isDirectory_eq_true.mp hdir
  have hresolve := FileSystem.resolve_of_locate hwf hcwd (hbounds.canonical root .root) hroot
  have hstop := ofRoot_stopped hwf hcwd hdir hopen hbounds.toInBounds
  have htrail := trail_texts fs skip root
  have horder := pairwise_files_ofRoot fs skip root
  refine ⟨(ofRoot fs skip root).files, real, ?_, ?_⟩
  · unfold traverse Trail.traced
    rw [htrail, hstop]
  · refine ⟨hresolve, ?_, ?_, ?_, ?_, horder, horder.imp fun h => h.ne, ?_⟩
    · rw [htrail]
      exact listed_iff_reached hwf hcwd hroot hbounds hstop
    · rw [htrail]
      exact nodup_real hwf hcwd hbounds.canonical
    · rw [htrail]
      exact fun l hl => (located_of_mem_listings hroot hl).1
    · intro f
      rw [htrail, mem_files_iff hwf hroot hbounds hstop]
      constructor
      · rintro ⟨l, hl, n, hn, hf⟩
        exact ⟨l, hl, n, (located_of_mem_listings hroot hl).2.1 ▸ hn, hf⟩
      · rintro ⟨l, hl, n, hn, hf⟩
        exact ⟨l, hl, n, (located_of_mem_listings hroot hl).2.1 ▸ hn, hf⟩
    · intro f hf
      obtain ⟨way, name, hway, -, rfl⟩ := below_of_mem_files hwf hf
      exact ⟨way, name, fun n hn => (hway n hn).2, rfl⟩

/-! ### Links to directories around -/

/-- A directory with a subdirectory, a link to the subdirectory, and a link to what is around. -/
def roundabout : FileSystem where
  tree := ⟨[.of ["src"] .directory, .of ["src", "a"] .directory, .of ["src", "a", "f"] (.file []),
    .of ["src", "b"] (.link "a"), .of ["src", "up"] (.link "..")]⟩
  cwd := []

/-- The paths that a walk asks for: its root, and the entries of the directories that it lists. -/
def asked (fs : FileSystem) (skip : List String) (root : Path) : List Path :=
  root :: (ofRoot fs skip root).listings.flatMap fun l => l.names.map l.path.child

/-- Whether a walk is seen to stay in the bounds: whatever it asks for may be a directory or not, has
a canonical form that owes nothing to the bound, and lies no deeper than the walk goes. -/
def staysInBounds (fs : FileSystem) (skip : List String) (root : Path) : Bool :=
  (asked fs skip root).all fun p => (fs.isDirectory p).toOption.isSome && fs.resolvesInFull p &&
    p.segments.length ≤ root.segments.length + fs.deepest

theorem mem_asked {l : Listing} (hl : l ∈ (ofRoot fs skip root).listings) {n : String}
    (hn : n ∈ l.names) : l.path.child n ∈ asked fs skip root :=
  List.mem_cons_of_mem _ (List.mem_flatMap.mpr ⟨l, hl, List.mem_map_of_mem hn⟩)

theorem inBounds_of_staysInBounds (h : staysInBounds fs skip root = true) :
    InBounds fs skip root := by
  simp only [staysInBounds, List.all_eq_true, Bool.and_eq_true, decide_eq_true_eq] at h
  have hasked : ∀ dir, ComesTo fs skip root dir → dir ∈ asked fs skip root := by
    rintro dir (_ | ⟨hl, hn, -, -⟩)
    · exact List.mem_cons_self
    · exact mem_asked hl hn
  refine ⟨fun dir hdir => FileSystem.resolvesInFull_of_eq_true (h dir (hasked dir hdir)).1.2,
    fun dir hdir => (h dir (hasked dir hdir)).2, fun l hl n hn hlong => ?_⟩
  have hsome := (h _ (mem_asked hl hn)).1.1
  rw [FileSystem.isDirectory_of_nameTooLong hlong] at hsome
  cases hsome

/-- No bound stands in the way if all that a walk asks for is found, too. -/
theorem unhindered_of_staysInBounds (h : staysInBounds fs skip root = true)
    (hfound : ∀ p ∈ asked fs skip root, (fs.locate p).toOption.isSome) :
    Unhindered fs skip root := by
  refine ⟨inBounds_of_staysInBounds h, fun l hl n hn he => ?_⟩
  have hsome := hfound _ (mem_asked hl hn)
  rw [he] at hsome
  cases hsome

/-- Links in circles are walked through once. -/
theorem traverse_exact_roundabout :
    ∃ files real, (traverse roundabout (.texts []) ⟨.current, ["src"]⟩).outcome = .ok files ∧
      files = [⟨.current, ["src", "a", "f"]⟩] ∧
      Exact roundabout [] ⟨.current, ["src"]⟩ files real := by
  have hdir : roundabout.isDirectory ⟨.current, ["src"]⟩ = .ok true :=
    Outcome.eq_ok_of_toOption (by decide +kernel)
  obtain ⟨files, real, hfiles, hexact⟩ := @traverse_exact roundabout [] ⟨.current, ["src"]⟩
    (by decide +kernel) .root hdir (fun p _ => rfl)
    (unhindered_of_staysInBounds (by decide +kernel) (by decide +kernel))
  have hsame : (traverse roundabout (.texts []) ⟨.current, ["src"]⟩).outcome.toOption =
      some [⟨.current, ["src", "a", "f"]⟩] := by decide +kernel
  rw [hfiles] at hsame
  exact ⟨files, real, hfiles, Option.some.inj hsame, hexact⟩

/-! ### Links beyond the bound -/

/-- A directory with a link to itself. -/
def itself : FileSystem where
  tree := ⟨[.of ["s"] (.link ".")]⟩
  cwd := []

/-- A path through as many links as are followed. -/
def farthest : Path := ⟨.current, List.replicate Tree.mostLinks "s"⟩

theorem leadsToDirectory_itself : LeadsToDirectory itself.tree [] "s" := by
  have hd : itself.tree.hasDirectory [] = true := by decide
  have hn : itself.tree.node? ([] ++ ["s"]) = some (.link ".") := by decide +kernel
  have hsteps : Tree.steps "." = ["."] := by decide +kernel
  refine ⟨[], ⟨1, .link hd ⟨by decide, by decide⟩ hn ?_⟩, hd⟩
  rw [hsteps]
  exact .stay hd (Or.inl rfl) .done

/-- **Without a look at the bounds, a walk need not be exact**: one link more than are followed, and
a directory is taken for a file. -/
theorem not_exact_farthest :
    ¬ ∀ (fs : FileSystem) (skip : List String) (root : Path), fs.tree.WellFormed →
      IsReal fs.tree fs.cwd → fs.isDirectory root = .ok true →
      (∀ p, fs.isDirectory p = .ok true → fs.isDenied p = false) →
      ∃ files real, (traverse fs (.texts skip) root).outcome = .ok files ∧
        Exact fs skip root files real := by
  intro hall
  obtain ⟨files, real, hfiles, hexact⟩ := hall itself [] farthest (by decide +kernel) .root
    (Outcome.eq_ok_of_toOption (by decide +kernel)) (fun p _ => rfl)
  have hfound : (traverse itself (.texts []) farthest).outcome.toOption =
      some [farthest.child "s"] := by decide +kernel
  have hlisted : ((trail itself (.texts []) farthest).listings.all fun l => l.real = []) = true := by
    decide +kernel
  rw [hfiles] at hfound
  obtain rfl : files = _ := Option.some.inj hfound
  obtain ⟨l, hl, n, -, hchild, hnot⟩ := (hexact.found _).mp List.mem_cons_self
  have hn : "s" = n := by
    rw [← Path.name_child farthest "s", hchild, Path.name_child]
  have hreal : l.real = [] := by simpa using List.all_eq_true.mp hlisted l hl
  rw [hreal, ← hn] at hnot
  exact hnot leadsToDirectory_itself

end Unimported.Walk
