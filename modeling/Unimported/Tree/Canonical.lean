import Unimported.Path.Normal
import Unimported.Tree.Follow

/-!
# Canonical paths

A path is made canonical by replacing every link on it by what the link leads to.  Unlike
following, this does not fail on names that are missing: they are kept as they are, and `..` takes
back the name before it.  The work is done on written paths: a relative path stays relative, with
the `..` at its front that lead out of the current directory, until an absolute link is met.

Each link is resolved once for each way of writing it.  A link that is met again, written alike,
while it is being resolved ends the work, and what remains of the path is taken as it stands.  A
link under a path that has grown too long to be asked about is not known to be one.

## Main definitions

* `Path.up` — a path and one step out.
* `Tree.trace` — what a path leads to, piece by piece.
* `Tree.canonical` — the canonical form of a path.
-/

namespace Unimported

/-- One step out of a path.  A step out of the current directory stays written. -/
def Path.up (p : Path) : Path :=
  if p.anchor = .current ∧ p.segments.getLast?.all (· = "..") then ⟨.current, p.segments ++ [".."]⟩
  else p.parent

namespace Tree

/-- What is known about the links met so far, by the way in which each was written: where it leads,
or that it is being resolved. -/
abbrev Resolved := List (String × Option Path)

/-- How far a path has been made canonical. -/
inductive Progress where
  /-- To its end. -/
  | complete (links : Resolved) (here : Path) : Progress
  /-- Up to a link that leads back to itself, and from there as it stands. -/
  | stuck (here : Path) : Progress
  /-- Not at all. -/
  | failed (fault : Fault) : Progress
  deriving Repr, Inhabited

/-- The location that a written path names in a current directory. -/
def locationOf (cwd : Location) (p : Path) : Location := (p.absolute cwd).segments

/-- A path with the pieces behind it as they stand.  An empty piece in front of others stands for a
slash at the front, so that they start over at a root. -/
def asItStands (here : Path) (pieces : List String) : Path := here.joinText (Path.slashed pieces)

/-- Where the target of a link starts. -/
def targetFrom (here : Path) (target : String) : Path :=
  if target.toList.head? = some '/' then ⟨.root, []⟩ else here

/-- The pieces of the target of a link; a slash at the front is left out. -/
def targetPieces (target : String) : List String :=
  match Path.pieces target with
  | "" :: pieces => pieces
  | pieces => pieces

/-- Make the pieces from a path canonical; `onLink` does so for the target of a link. -/
def trace (t : Tree) (longest : Option Nat) (cwd : Location)
    (onLink : Resolved → Path → List String → Progress) :
    Resolved → Path → List String → Progress
  | links, here, [] => .complete links here
  | links, here, piece :: rest =>
      if piece = "" ∨ piece = "." then trace t longest cwd onLink links here rest
      else if piece = ".." then trace t longest cwd onLink links here.up rest
      else
        let there := here.child piece
        match t.node? (locationOf cwd there) with
        | none =>
            if AccessError.holdsZero piece then .failed .zeroCharacter
            else trace t longest cwd onLink links there rest
        | some (.link target) =>
            let name := there.text
            if AccessError.isLongPath longest name then trace t longest cwd onLink links there rest
            else
              match links.find? fun l => l.1 = name with
              | some (_, some known) => trace t longest cwd onLink links known rest
              | some (_, none) => .stuck (asItStands there rest)
              | none =>
                  match onLink ((name, none) :: links) (targetFrom here target)
                      (targetPieces target) with
                  | .complete links found =>
                      trace t longest cwd onLink ((name, some found) :: links) found rest
                  | .stuck found => .stuck (asItStands found rest)
                  | .failed fault => .failed fault
        | some _ => trace t longest cwd onLink links there rest

/-- Make pieces canonical, going so many links deep at most. -/
def traceAtMost (t : Tree) (longest : Option Nat) (cwd : Location) :
    Nat → Resolved → Path → List String → Progress
  | 0 => trace t longest cwd fun _ _ _ => .failed .tooDeep
  | depth + 1 => trace t longest cwd (traceAtMost t longest cwd depth)

/-- The canonical form of a path, where paths have so many bytes at most. -/
def canonical (t : Tree) (longest : Option Nat) (cwd : Location) (p : Path) : Except Fault Path :=
  let start : Path := if p.isAbsolute then ⟨.root, []⟩ else ⟨.current, []⟩
  match t.traceAtMost longest cwd Fault.deepestNesting [] start p.segments with
  | .complete _ found => .ok (found.absolute cwd)
  | .stuck found => .ok (found.absolute cwd)
  | .failed fault => .error fault

end Tree

end Unimported
