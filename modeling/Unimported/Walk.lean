import Unimported.FileSystem
import Unimported.Journal
import Unimported.Value.Basic

/-!
# Walking a source tree

The walk lists directories from a root downwards, entry by entry in the order in which the machine
lists them, and yields every entry that is no directory.  Directories with a name that starts with
a dot or is to be skipped are not entered, whatever they are reached by; and a directory with the
canonical path of one that was listed before is not listed again, so that links to directories do
not lead around in circles.  A link that is not known to be one, because its path is too long to be
asked about, still does, until the machine follows no more links.

A directory that cannot be listed stops the walk: without its files, nothing could be said to be
unused.  So does one with too many directories between it and the root.  An entry is looked at when
its turn comes, so that what stops the walk is what comes first.

The walk is told by its *trail*: which directories were listed and which files were found, in this
order, and what stopped it.

## Main definitions

* `Walk.Stage`, `Walk.Trail` — what a walk does.
* `Walk.identify` — what a directory is told by.
* `Walk.walk` — the trail of what is still to be done.
* `Walk.ofRoot`, `Walk.trail` — the trail from a root.
* `Walk.traverse` — the files below a root.
-/

namespace Unimported.Walk

/-- What is still to be done. -/
inductive Errand where
  /-- Enter a directory. -/
  | enter (dir : Path) : Errand
  /-- Look at an entry of a directory. -/
  | look (entry : Path) : Errand
  deriving DecidableEq, Repr

/-- What was done. -/
inductive Stage where
  /-- A directory was listed. -/
  | listed (listing : Listing) : Stage
  /-- A file was found. -/
  | found (file : Path) : Stage
  deriving Repr

/-- What a walk did, and what stopped it. -/
structure Trail where
  /-- The stages in their order. -/
  stages : List Stage
  /-- What stopped the walk. -/
  stopped : Option Failure
  deriving Repr

/-- A trail with one more stage in front. -/
def Trail.cons (s : Stage) (t : Trail) : Trail := { t with stages := s :: t.stages }

/-- Whether a directory is hidden by its name. -/
def isHidden (name : String) : Bool := Text.opens "." name

/-- Whether a directory is passed by because of its name. -/
def isPassedBy (skip : List String) (name : String) : Bool := isHidden name || skip.contains name

/-- What to do with the entries of a directory. -/
def errands (l : Listing) : List Errand := l.names.map fun name => .look (l.path.child name)

/-- What a directory that cannot be listed stops a walk with. -/
def unlistable (dir : Path) (e : AccessError) : Failure :=
  e.failure fun e => .directory dir (e.text dir)

/-- What a walk tells a directory by, its canonical path.  A directory that lies too deep, by the
names on its path, is a fault before anything is asked about it. -/
def identify (fs : FileSystem) (deepest : Nat) (dir : Path) : Except Fault Path :=
  if deepest < dir.segments.length then .error .tooDeep else fs.resolve dir

/-- How much a directory weighs in a tree of so many entries, with so many levels from it on: an
entry of it may turn out to be a directory of the next level. -/
def directoryWeight (entries : Nat) : Nat → Nat
  | 0 => 1
  | levels + 1 => 1 + entries * (directoryWeight entries levels + 1)

/-- How much an errand weighs in a walk that goes so deep. -/
def Errand.weight (fs : FileSystem) (deepest : Nat) : Errand → Nat
  | .enter dir => directoryWeight fs.tree.entries.length (deepest + 1 - dir.segments.length)
  | .look entry =>
      directoryWeight fs.tree.entries.length (deepest + 1 - entry.segments.length) + 1

/-- How much errands weigh together. -/
def weight (fs : FileSystem) (deepest : Nat) (todo : List Errand) : Nat :=
  todo.foldr (fun e n => e.weight fs deepest + n) 0

theorem weight_cons (fs : FileSystem) (deepest : Nat) (e : Errand) (rest : List Errand) :
    weight fs deepest (e :: rest) = e.weight fs deepest + weight fs deepest rest := rfl

theorem weight_append (fs : FileSystem) (deepest : Nat) (todo rest : List Errand) :
    weight fs deepest (todo ++ rest) = weight fs deepest todo + weight fs deepest rest := by
  induction todo with
  | nil => simp [weight]
  | cons e todo ih => rw [List.cons_append, weight_cons, weight_cons, ih, Nat.add_assoc]

theorem one_le_directoryWeight (entries levels : Nat) : 1 ≤ directoryWeight entries levels := by
  cases levels with
  | zero => exact Nat.le_refl 1
  | succ levels => exact Nat.le_add_right 1 _

theorem weight_errands (fs : FileSystem) (deepest : Nat) (l : Listing) :
    weight fs deepest (errands l) = l.names.length *
      (directoryWeight fs.tree.entries.length (deepest - l.path.segments.length) + 1) := by
  unfold errands
  induction l.names with
  | nil => simp [weight]
  | cons n names ih =>
    rw [List.map_cons, weight_cons, ih, List.length_cons, Nat.succ_mul, Nat.add_comm]
    simp [Errand.weight, Path.child]

/-- What is in a directory weighs less than the directory. -/
theorem weight_errands_lt {fs : FileSystem} {deepest : Nat} {dir : Path} {l : Listing}
    (hdepth : dir.segments.length ≤ deepest) (hl : fs.list dir = .ok l) :
    weight fs deepest (errands l) < (Errand.enter dir).weight fs deepest := by
  obtain ⟨-, -, hnames, hpath⟩ := FileSystem.list_eq_ok hl
  have hfew : l.names.length ≤ fs.tree.entries.length := hnames ▸ Tree.length_names_le _ _
  have hlevels : deepest + 1 - dir.segments.length = deepest - dir.segments.length + 1 := by omega
  rw [weight_errands, hpath, Errand.weight, hlevels, directoryWeight, Nat.one_add]
  exact Nat.lt_succ_of_le (Nat.mul_le_mul_right _ hfew)

theorem identify_eq_ok {fs : FileSystem} {deepest : Nat} {dir real : Path} :
    identify fs deepest dir = .ok real ↔
      dir.segments.length ≤ deepest ∧ fs.resolve dir = .ok real := by
  unfold identify
  split
  · next h => simp [Nat.not_le_of_lt h]
  · next h => simp [Nat.le_of_not_lt h]

/-- The trail of what is still to be done, when directories with the canonical paths `seen` have
been listed.  A directory whose path has more names than `deepest` is too deep for the walk. -/
def walk (fs : FileSystem) (skip : List String) (deepest : Nat) (seen : List Path)
    (todo : List Errand) : Trail :=
  match todo with
  | [] => ⟨[], none⟩
  | .look entry :: rest =>
      match fs.isDirectory entry with
      | .error fault => ⟨[], some (.fault fault)⟩
      | .ok true =>
          if isPassedBy skip entry.name then walk fs skip deepest seen rest
          else walk fs skip deepest seen (.enter entry :: rest)
      | .ok false => (walk fs skip deepest seen rest).cons (.found entry)
  | .enter dir :: rest =>
      match _hi : identify fs deepest dir with
      | .error fault => ⟨[], some (.fault fault)⟩
      | .ok real =>
          if real ∈ seen then walk fs skip deepest seen rest
          else
            match _hl : fs.list dir with
            | .error e => ⟨[], some (unlistable dir e)⟩
            | .ok l =>
                (walk fs skip deepest (real :: seen) (errands l ++ rest)).cons (.listed l)
termination_by weight fs deepest todo
decreasing_by
  · simp only [weight_cons, Errand.weight]
    omega
  · simp only [weight_cons, Errand.weight]
    omega
  · simp only [weight_cons, Errand.weight]
    omega
  · have := one_le_directoryWeight fs.tree.entries.length (deepest + 1 - dir.segments.length)
    simp only [weight_cons, Errand.weight]
    omega
  · rw [weight_append, weight_cons]
    exact Nat.add_lt_add_right (weight_errands_lt (identify_eq_ok.mp _hi).1 _hl) _

/-- The trail from a root. -/
def ofRoot (fs : FileSystem) (skip : List String) (root : Path) : Trail :=
  walk fs skip (root.segments.length + fs.deepest) [] [.enter root]

/-- The directories that were listed. -/
def Trail.listings (t : Trail) : List Listing :=
  t.stages.filterMap fun
    | .listed l => some l
    | .found _ => none

/-- The files that were found. -/
def Trail.files (t : Trail) : List Path :=
  t.stages.filterMap fun
    | .listed _ => none
    | .found file => some file

/-- The record of a directory that was listed. -/
def listingRecord (l : Listing) : Record :=
  ⟨.debug, .walk, "Listing " ++ l.path.text ++ " (" ++ toString l.names.length ++ " entries)"⟩

/-- The files of a trail, with a record for each directory that was listed. -/
def Trail.traced (t : Trail) : Traced (List Path) :=
  ⟨t.listings.map listingRecord,
    match t.stopped with
    | none => .ok t.files
    | some failure => .error failure⟩

/-- The names that a setting tells to skip. -/
def skipNames (v : Value) : Except Fault (List String) :=
  match v.elements? with
  | none => .error .notItems
  | some items =>
      if Value.allFixed items then .ok (items.filterMap Value.text?) else .error .notFixed

/-- The trail below a root. -/
def trail (fs : FileSystem) (skip : Value) (root : Path) : Trail :=
  match skipNames skip with
  | .error fault => ⟨[], some (.fault fault)⟩
  | .ok names => ofRoot fs names root

/-- The files below a root. -/
def traverse (fs : FileSystem) (skip : Value) (root : Path) : Traced (List Path) :=
  (trail fs skip root).traced

/-- The names that are skipped unless a caller says otherwise. -/
def defaultSkip : Value := Value.texts ["node_modules"]

theorem skipNames_texts (names : List String) : skipNames (Value.texts names) = .ok names := by
  simp only [skipNames, Value.elements?_texts, Value.allFixed_map_text, if_true]
  congr 1
  induction names with
  | nil => rfl
  | cons n names ih => simp [Value.text?, ih]

end Unimported.Walk
