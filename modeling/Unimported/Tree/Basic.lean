import Unimported.StringSet

/-!
# File trees

A tree holds files, directories and symbolic links at *locations*: lists of names from the root.
It is kept flat, as the list of its entries.  A lookup asks for one location only; it is by going
down from the root, name by name, that the tree becomes one, so nothing below a file is ever met.
An entry knows how deep it lies, so that a lookup compares names at one depth only.

## Main definitions

* `Entry`, `Tree`, `Tree.node?` — trees, and what stands at a location.
* `Tree.names` — the names in a directory, in code point order.
* `Tree.directories` — the locations of directories.
* `Tree.set`, `Tree.insert`, `Tree.erase` — change a tree.

## Main results

* `Tree.mem_names` — the names of a directory are those under which something stands.
* `Tree.node?_erase`, `Tree.node?_set_self` — what stands at a location after a change.
-/

namespace Unimported

/-- A place in a tree: the names from the root. -/
abbrev Location := List String

/-- What stands at a location. -/
inductive Node where
  /-- A file with its bytes. -/
  | file (bytes : List UInt8) : Node
  /-- A directory. -/
  | directory : Node
  /-- A symbolic link with its target. -/
  | link (target : String) : Node
  deriving DecidableEq, Repr, Inhabited

/-- An entry of a tree: a node at a location. -/
structure Entry where
  /-- The location. -/
  place : Location
  /-- What stands there. -/
  node : Node
  /-- How deep the location lies. -/
  depth : Nat
  /-- The depth is that of the location. -/
  depth_eq : depth = place.length
  deriving Repr

/-- The entry of a node at a location. -/
def Entry.of (loc : Location) (n : Node) : Entry := ⟨loc, n, loc.length, rfl⟩

/-- A file tree. -/
structure Tree where
  /-- The entries; of those with one location, the first counts. -/
  entries : List Entry
  deriving Repr, Inhabited

namespace Tree

/-- The entry of a location. -/
def entry? (t : Tree) (loc : Location) : Option Entry :=
  let depth := loc.length
  t.entries.find? fun e => e.depth == depth && e.place == loc

/-- What stands at a location; the root is a directory. -/
def node? (t : Tree) (loc : Location) : Option Node :=
  if loc = [] then some .directory else (t.entry? loc).map Entry.node

/-- Whether a directory stands at a location. -/
def hasDirectory (t : Tree) (loc : Location) : Bool := t.node? loc = some .directory

/-- The name of an entry in a directory of the given depth and location. -/
def nameIn? (depth : Nat) (loc : Location) (e : Entry) : Option String :=
  if e.depth = depth + 1 && e.place.dropLast = loc then e.place.getLast? else none

/-- The names in a directory, in code point order. -/
def names (t : Tree) (loc : Location) : List String :=
  (StringSet.ofList (t.entries.filterMap (nameIn? loc.length loc))).members

/-- The locations of directories; the root is the first. -/
def directories (t : Tree) : List Location :=
  [] :: (t.entries.map Entry.place).filter t.hasDirectory

/-- The tree without what stands at a location and below it. -/
def erase (t : Tree) (loc : Location) : Tree :=
  ⟨t.entries.filter fun e => !loc.isPrefixOf e.place⟩

/-- The tree with a directory at a location where nothing stands. -/
def openDirectory (t : Tree) (loc : Location) : Tree :=
  if (t.node? loc).isSome then t else ⟨t.entries ++ [.of loc .directory]⟩

/-- The locations on the way to a location, from the outside in. -/
def above (loc : Location) : List Location := (List.range loc.length).map loc.take

/-- The tree with a node at a location, and nothing below it. -/
def set (t : Tree) (loc : Location) (n : Node) : Tree :=
  ⟨(t.erase loc).entries ++ [.of loc n]⟩

/-- The tree with a node at a location.  Directories that are missing on the way are made; a
directory that is already there is kept. -/
def insert (t : Tree) (loc : Location) (n : Node) : Tree :=
  let t := (above loc).foldl openDirectory t
  if n = .directory ∧ t.hasDirectory loc then t else t.set loc n

theorem entry?_eq (t : Tree) (loc : Location) :
    t.entry? loc = t.entries.find? fun e => e.place = loc := by
  show t.entries.find? (fun e => e.depth == loc.length && e.place == loc) = _
  congr 1
  funext e
  by_cases h : e.place = loc
  · simp [h, e.depth_eq]
  · simp [h]

@[simp] theorem node?_root (t : Tree) : t.node? [] = some .directory := rfl

/-- Erasing takes away a location with all below it, and nothing else. -/
theorem node?_erase {t : Tree} {loc x : Location} (hx : x ≠ []) :
    (t.erase loc).node? x = if loc.isPrefixOf x then none else t.node? x := by
  simp only [node?, if_neg hx, entry?_eq, erase, List.find?_filter]
  split
  · rename_i h
    rw [Option.map_eq_none_iff, List.find?_eq_none]
    intro e _ he
    simp only [Bool.not_eq_true', Bool.decide_and, Bool.and_eq_true, decide_eq_true_eq] at he
    rw [← he.2, he.1] at h
    cases h
  · rename_i h
    congr 2
    funext e
    by_cases he : e.place = x <;> simp [he, h]

theorem node?_set_self {t : Tree} {loc : Location} {n : Node} (h : loc ≠ []) :
    (t.set loc n).node? loc = some n := by
  have he : (t.erase loc).node? loc = none := by simp [node?_erase h]
  simp only [node?, if_neg h, entry?_eq, Option.map_eq_none_iff] at he
  simp [node?, h, entry?_eq, set, he, Entry.of]

theorem nameIn?_eq_some {loc : Location} {e : Entry} {name : String} :
    nameIn? loc.length loc e = some name ↔ e.place = loc ++ [name] := by
  simp only [nameIn?, e.depth_eq]
  rcases List.eq_nil_or_concat e.place with h | ⟨dir, last, h⟩
  · simp [h]
  · simp only [h, List.concat_eq_append, List.getLast?_concat, List.dropLast_concat]
    constructor
    · intro hn
      split at hn
      · simp_all
      · cases hn
    · intro hn
      obtain ⟨rfl, hl⟩ := List.append_inj' hn rfl
      simpa using hl

theorem mem_names {t : Tree} {loc : Location} {name : String} :
    name ∈ t.names loc ↔ (t.node? (loc ++ [name])).isSome := by
  have hne : loc ++ [name] ≠ [] := by simp
  simp only [names, node?, entry?_eq, if_neg hne, StringSet.mem_members, StringSet.mem_ofList,
    List.mem_filterMap, nameIn?_eq_some, Option.isSome_map, List.find?_isSome, decide_eq_true_eq]

theorem length_names_le (t : Tree) (loc : Location) : (t.names loc).length ≤ t.entries.length :=
  Nat.le_trans (StringSet.length_ofList_le _) (List.length_filterMap_le _ _)

theorem mem_directories {t : Tree} {loc : Location} :
    loc ∈ t.directories ↔ t.hasDirectory loc = true := by
  unfold directories
  rcases Decidable.em (loc = []) with rfl | hne
  · simp [hasDirectory]
  · simp only [List.mem_cons, hne, false_or, List.mem_filter, and_iff_right_iff_imp]
    intro h
    simp only [hasDirectory, node?, entry?_eq, if_neg hne, decide_eq_true_eq,
      Option.map_eq_some_iff] at h
    obtain ⟨e, he, -⟩ := h
    have := List.find?_some he
    simp only [decide_eq_true_eq] at this
    exact List.mem_map.2 ⟨e, List.mem_of_find?_eq_some he, this⟩

end Tree

end Unimported
