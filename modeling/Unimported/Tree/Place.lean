import Unimported.Tree.Follow

/-!
# Places

Something is made or taken away at its *place*, which may be empty.  Other than when a path is
followed, the last name of the path is left alone if it is a link.

## Main definitions

* `Tree.place` — where something is made or taken away.

## Main results

* `Tree.place_append` — the place behind a directory is a name in it.
-/

namespace Unimported.Tree

/-- The location that names lead to, a link at the last of them left alone. -/
def place (t : Tree) (here : Location) (path : List String) : Except AccessError Location :=
  match path.getLast? with
  | none => .ok here
  | some name => do
      let dir ← t.follow here path.dropLast
      if !t.hasDirectory dir then .error .notDirectory
      else if name = "." then .ok dir
      else if name = ".." then .ok dir.dropLast
      else .ok (dir ++ [name])

theorem place_append {t : Tree} {here dir : Location} {path : List String} {name : String}
    (hf : t.follow here path = .ok dir) (hd : t.hasDirectory dir = true)
    (hn : name ≠ "." ∧ name ≠ "..") : t.place here (path ++ [name]) = .ok (dir ++ [name]) := by
  simp [place, hf, hd, hn.1, hn.2, bind, Except.bind]

end Unimported.Tree
