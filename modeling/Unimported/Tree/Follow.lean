import Unimported.Path.Basic
import Unimported.Problem
import Unimported.Text.Quoted
import Unimported.Tree.Basic

/-!
# Following paths through a tree

A path is followed from a directory step by step.  A step may be a name, `.`, or `..`, and it can
only be taken in a directory; a link on the way is replaced by the steps of its target.  A bounded
number of links is followed, after which the path counts as going around in a loop.  Names, too,
are bounded: a name that is missing may be missing because no entry can have it.  Whether paths as
a whole are bounded is up to the machine.

A path is followed to find what is there, or to write a file there.  In the second case the last
name may be missing, but no slash may stand behind it.

## Main definitions

* `AccessError`, `AccessError.text` — why a path does not lead where it should.
* `AccessError.ofText?` — the reason that the text of a path gives.
* `Tree.segments`, `Tree.steps` — the names in a text, and the steps it asks for.
* `Tree.follow` — the location that a path leads to; it is no link.
* `Tree.landing` — the location where a file is written; it is no link either.
-/

namespace Unimported

/-- Why something cannot be reached, listed or opened. -/
inductive AccessError where
  /-- Nothing has this name. -/
  | missing : AccessError
  /-- The path may not be listed or opened. -/
  | denied : AccessError
  /-- Something stands where something new should. -/
  | taken : AccessError
  /-- Something that is no directory is gone into. -/
  | notDirectory : AccessError
  /-- A directory is opened like a file. -/
  | isDirectory : AccessError
  /-- The path holds the zero character, which no name can hold. -/
  | zeroCharacter : AccessError
  /-- A name, or the path as a whole, is longer than any can be. -/
  | nameTooLong : AccessError
  /-- Too many links stand on the way. -/
  | tooManyLinks : AccessError
  /-- A directory is asked to be removed under the name that it has for itself. -/
  | ownName : AccessError
  deriving DecidableEq, Repr, Inhabited

namespace AccessError

/-- The number of a reason. -/
def number : AccessError → Nat
  | missing => 2
  | denied => 13
  | taken => 17
  | notDirectory => 20
  | isDirectory => 21
  | zeroCharacter | ownName => 22
  | nameTooLong => 36
  | tooManyLinks => 40

/-- The wording of a reason. -/
def wording : AccessError → String
  | missing => "No such file or directory"
  | denied => "Permission denied"
  | taken => "File exists"
  | notDirectory => "Not a directory"
  | isDirectory => "Is a directory"
  | zeroCharacter | ownName => "Invalid argument"
  | nameTooLong => "File name too long"
  | tooManyLinks => "Too many levels of symbolic links"

/-- The text of a reason for a path. -/
def text (e : AccessError) (p : Path) : String :=
  "[Errno " ++ toString e.number ++ "] " ++ e.wording ++ ": " ++ Text.quoted p.text

/-- Whether a text holds the zero character. -/
def holdsZero (s : String) : Bool := s.toList.contains '\x00'

/-- The most bytes of a name. -/
def longestName : Nat := 255

/-- Whether a text is longer than any name. -/
def isLongName (s : String) : Bool := longestName < s.utf8ByteSize

/-- Whether a text is longer than any path, where paths have so many bytes at most. -/
def isLongPath (longest : Option Nat) (s : String) : Bool := longest.any (· < s.utf8ByteSize)

/-- Why a text can be no path that leads anywhere, where paths have so many bytes at most. -/
def ofText? (longest : Option Nat) (s : String) : Option AccessError :=
  if holdsZero s then some zeroCharacter
  else if isLongPath longest s then some nameTooLong
  else none

/-- Why a name that is asked for is not there. -/
def ofName (name : String) : AccessError :=
  if isLongName name then nameTooLong else missing

/-- What stops a run that cannot reach something: a problem, unless the path is none at all. -/
def failure (report : AccessError → Problem) (e : AccessError) : Failure :=
  match e with
  | zeroCharacter => .fault .zeroCharacter
  | e => .problem (report e)

end AccessError

/-- What a path is followed for. -/
inductive Aim where
  /-- To find what stands at its end. -/
  | find : Aim
  /-- To write a file at its end, which may be new. -/
  | write : Aim
  deriving DecidableEq, Repr

namespace Tree

/-- The names in a text. -/
def segments (s : String) : List String := (Path.pieces s).filter (· != "")

/-- The steps that a text asks for.  A slash behind the last name is an empty step. -/
def steps (s : String) : List String :=
  let named := segments s
  if named ≠ [] ∧ (Path.pieces s).getLast? = some "" then named ++ [""] else named

/-- Where the steps of a text start, seen from a directory. -/
def stepsFrom (here : Location) (s : String) : Location :=
  if s.toList.head? = some '/' then [] else here

/-- Take steps from a location; `onLink` says what becomes of a link, given where its target
starts and the steps that then remain.  An empty step leads nowhere else, like a dot. -/
def descend (t : Tree) (aim : Aim)
    (onLink : Location → List String → Except AccessError Location) :
    Location → List String → Except AccessError Location
  | here, [] => .ok here
  | here, step :: rest =>
      if !t.hasDirectory here then .error .notDirectory
      else if aim = .write ∧ rest = [""] then .error .isDirectory
      else if step = "." ∨ step = "" then descend t aim onLink here rest
      else if step = ".." then descend t aim onLink here.dropLast rest
      else
        match t.node? (here ++ [step]) with
        | none => if aim = .write ∧ rest = [] then .ok (here ++ [step]) else .error (.ofName step)
        | some (.link target) => onLink (stepsFrom here target) (steps target ++ rest)
        | some _ => descend t aim onLink (here ++ [step]) rest

/-- Take steps from a location, following so many links at most. -/
def followAtMost (t : Tree) (aim : Aim) : (links : Nat) → Location → List String →
    Except AccessError Location
  | 0 => descend t aim fun _ _ => .error .tooManyLinks
  | links + 1 => descend t aim (followAtMost t aim links)

/-- How many links are followed. -/
def mostLinks : Nat := 40

/-- The location that steps lead to. -/
def follow (t : Tree) (here : Location) (path : List String) : Except AccessError Location :=
  t.followAtMost .find mostLinks here path

/-- The location where a file is written that steps lead to. -/
def landing (t : Tree) (here : Location) (path : List String) : Except AccessError Location :=
  t.followAtMost .write mostLinks here path

end Tree

end Unimported
