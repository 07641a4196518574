/-!
# Paths

A path is where it starts and the segments it passes.  Slashes separate segments; empty segments
and `.` say nothing and are dropped on reading, while `..` is kept, because what it means depends
on links.  A path starts at the current directory, at the root, or at the double root that two
leading slashes name.

## Main definitions

* `Path`, `Path.ofString`, `Path.text` — paths, read and written.
* `Path.join`, `Path.child`, `Path.parent`, `Path.relativeTo?` — moving about.
* `Path.name`, `Path.stem`, `Path.suffix` — the last segment and its parts.
-/

namespace Unimported

/-- Where a path starts. -/
inductive Anchor where
  /-- The current directory. -/
  | current : Anchor
  /-- The root. -/
  | root : Anchor
  /-- The root, written with two slashes. -/
  | doubleRoot : Anchor
  deriving DecidableEq, Repr, Inhabited

/-- How the start of a path is written. -/
def Anchor.text : Anchor → String
  | .current => ""
  | .root => "/"
  | .doubleRoot => "//"

/-- A path: where it starts and the segments it passes. -/
structure Path where
  /-- Where the path starts. -/
  anchor : Anchor
  /-- The segments, none of them empty or `.` when the path was read from a text. -/
  segments : List String
  deriving DecidableEq, Repr, Inhabited

namespace Path

/-- The texts between the slashes of a text. -/
def pieces (s : String) : List String := (s.toList.splitOn '/').map String.ofList

/-- Whether a piece between slashes names something. -/
def isSegment (s : String) : Bool := s != "" && s != "."

/-- The start that a text gives a path: one leading slash or more than two name the root. -/
def anchorOf : List Char → Anchor
  | '/' :: '/' :: '/' :: _ => .root
  | '/' :: '/' :: _ => .doubleRoot
  | '/' :: _ => .root
  | _ => .current

/-- Read a path. -/
def ofString (s : String) : Path := ⟨anchorOf s.toList, (pieces s).filter isSegment⟩

/-- Segments with slashes between them. -/
def slashed (segments : List String) : String := "/".intercalate segments

/-- The written form; a path that says nothing is a dot. -/
def text (p : Path) : String :=
  if p.anchor = .current ∧ p.segments = [] then "." else p.anchor.text ++ slashed p.segments

/-- Whether a path starts at a root. -/
def isAbsolute (p : Path) : Bool := p.anchor != .current

/-- The second path taken from the first; one that starts at a root stands alone. -/
def join (p q : Path) : Path :=
  if q.isAbsolute then q else ⟨p.anchor, p.segments ++ q.segments⟩

/-- The path named by a text, taken from a path. -/
def joinText (p : Path) (s : String) : Path := p.join (ofString s)

/-- The entry of a given name. -/
def child (p : Path) (name : String) : Path := ⟨p.anchor, p.segments ++ [name]⟩

/-- The path without its last segment. -/
def parent (p : Path) : Path := ⟨p.anchor, p.segments.dropLast⟩

/-- The last segment; the empty text when there is none. -/
def name (p : Path) : String := p.segments.getLast?.getD ""

/-- The segments left after those of a base, when the path starts with the base. -/
def relativeTo? (p base : Path) : Option (List String) :=
  if p.anchor = base.anchor ∧ base.segments.isPrefixOf p.segments then
    some (p.segments.drop base.segments.length)
  else none

/-- The written form of a path that starts at the current directory. -/
def relativeText (segments : List String) : String := text ⟨.current, segments⟩

/-- A name cut before its last dot, when something stands on both sides of that dot. -/
def cutSuffix (name : String) : String × String :=
  let after := (name.toList.reverse.takeWhile (· != '.')).reverse
  let before := ((name.toList.reverse.dropWhile (· != '.')).drop 1).reverse
  if before = [] ∨ after = [] then (name, "")
  else (String.ofList before, String.ofList ('.' :: after))

/-- The last segment without its suffix. -/
def stem (p : Path) : String := (cutSuffix p.name).1

/-- The suffix of the last segment, with its dot. -/
def suffix (p : Path) : String := (cutSuffix p.name).2

@[simp] theorem segments_child (p : Path) (n : String) :
    (p.child n).segments = p.segments ++ [n] := rfl

@[simp] theorem name_child (p : Path) (n : String) : (p.child n).name = n := by
  simp [name, child]

@[simp] theorem parent_child (p : Path) (n : String) : (p.child n).parent = p := by
  simp [parent, child]

theorem cutSuffix_append (name : String) : (cutSuffix name).1 ++ (cutSuffix name).2 = name := by
  unfold cutSuffix
  simp only
  split
  · simp
  · rename_i h
    rw [not_or] at h
    have hd : (name.toList.reverse.dropWhile (· != '.')) ≠ [] := by
      intro e
      exact h.1 (by rw [e]; rfl)
    obtain ⟨c, r, hr⟩ := List.exists_cons_of_ne_nil hd
    have hc : c = '.' := by
      have := List.head?_dropWhile_not (p := (· != '.')) (l := name.toList.reverse)
      rw [hr] at this
      simpa using this
    have htd := List.takeWhile_append_dropWhile (p := (· != '.')) (l := name.toList.reverse)
    rw [hr, hc] at htd
    have := congrArg List.reverse htd
    simp only [List.reverse_append, List.reverse_cons, List.reverse_reverse] at this
    rw [← String.toList_inj, hr]
    simp only [String.toList_append, String.toList_ofList, List.drop_succ_cons, List.drop_zero]
    simpa using this

example : (ofString "/a//b/./c/").text = "/a/b/c" := by decide +kernel
example : (ofString "").text = "." := by decide +kernel
example : (ofString "src/a.test.ts").stem = "a.test" := by decide +kernel
example : (ofString ".eslintrc").stem = ".eslintrc" := by decide +kernel

end Path

end Unimported
