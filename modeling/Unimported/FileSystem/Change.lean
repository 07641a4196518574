import Unimported.FileSystem
import Unimported.Path.Written
import Unimported.Text.Occurrence
import Unimported.Tree.Place

/-!
# Changes of a file system

Files, directories and links are put at paths and removed from them; the paths are taken as they
are written.  The directories above a path that are missing are made first.  A file is written
through links and replaces the file that is there; a directory may be there already; a link can
only stand where nothing does.  A change that fails on the way leaves what it has done so far.

## Main definitions

* `Refusal`, `Change` — why a change fails, and changes.
* `Change.makeDirectories` — make a directory and those above it.
* `Change.put`, `Change.putAll` — put nodes at paths.
* `Change.remove`, `Change.removeAll` — remove what stands at paths.
* `Change.deny` — deny paths.
* `FileSystem.apply` — what a change does to a file system.
-/

namespace Unimported

/-- Why a change fails. -/
inductive Refusal where
  /-- The path does not lead where it should. -/
  | access (reason : AccessError) : Refusal
  /-- Too many directories would have to be made at once. -/
  | tooDeep : Refusal
  deriving DecidableEq, Repr, Inhabited

/-- A change of a file system. -/
abbrev Change := ExceptT Refusal (StateM FileSystem)

namespace Change

/-- End a change. -/
def refuse {α : Type} (reason : AccessError) : Change α := throw (.access reason)

/-- Go on with what was found, if it was. -/
def found {α : Type} : Except AccessError α → Change α
  | .ok a => return a
  | .error reason => refuse reason

/-- Go on only if a text can be a path. -/
def check (s : String) : Change Unit := do
  match AccessError.ofText? (← get).longestPath s with
  | none => return
  | some reason => refuse reason

/-- The place of a path. -/
def place (s : String) : Change Location := do
  check s
  let fs ← get
  found (fs.tree.place (Tree.stepsFrom fs.cwd s) (Tree.segments s))

/-- Why the last name of a location is not there. -/
def lacks {α : Type} (loc : Location) : Change α := refuse (.ofName (loc.getLast?.getD ""))

/-- Put a node at a location. -/
def store (loc : Location) (n : Node) : Change Unit :=
  modify fun fs => { fs with tree := fs.tree.set loc n }

/-- Take away what stands at a location, and all below it. -/
def erase (loc : Location) : Change Unit := modify fun fs => { fs with tree := fs.tree.erase loc }

/-- Put a node at a location where nothing may stand yet. -/
def create (loc : Location) (n : Node) : Change Unit := do
  if ((← get).tree.node? loc).isSome then refuse .taken
  else if AccessError.isLongName (loc.getLast?.getD "") then refuse .nameTooLong
  else store loc n

/-- Make a directory, unless there is one. -/
def makeDirectory (s : String) : Change Unit :=
  tryCatch (do create (← place s) .directory) fun refusal => do
    if ((← get).directoryAt? s).isSome then return else throw refusal

/-- Make a directory and those above it that are missing, so many at most.  A name above that is
taken is passed by; whether it leads to a directory shows below it.  When the directory above was
made, a dot behind it asks for nothing more. -/
def makeDirectories : (most : Nat) → String → Change Unit
  | 0, _ => throw .tooDeep
  | most + 1, s => do
      let named := if Path.last s = "" then Path.front s else s
      let above := Path.front named
      let missing := above ≠ "" && Path.last named ≠ "" && !(← get).leadsAnywhere above
      if missing then
        tryCatch (makeDirectories most above) fun refusal =>
          if refusal = .access .taken then return else throw refusal
      if missing && Path.last named = "." then return
      makeDirectory s

/-- Make the directories above a path that are missing. -/
def makeAbove (s : String) : Change Unit :=
  if Path.front s = "" then return else makeDirectories Fault.deepestNesting (Path.front s)

/-- Write a file, through links. -/
def write (s : String) (bytes : List UInt8) : Change Unit := do
  check s
  let fs ← get
  let loc ← found (fs.tree.landing (Tree.stepsFrom fs.cwd s) (Tree.steps s))
  match fs.tree.node? loc with
  | some .directory => refuse .isDirectory
  | some _ => store loc (.file bytes)
  | none => create loc (.file bytes)

/-- Make a link.  A slash behind its name asks for a directory, which a link is not. -/
def makeLink (s target : String) : Change Unit := do
  if AccessError.holdsZero s then refuse .zeroCharacter
  check target
  if target = "" then refuse .missing
  let loc ← place s
  if Path.last s = "" && ((← get).tree.node? loc).isNone then lacks loc
  else create loc (.link target)

/-- Put a node at a path. -/
def put (s : String) : Node → Change Unit
  | .file bytes => do
      makeAbove s
      write s bytes
  | .directory => makeDirectories Fault.deepestNesting s
  | .link target => do
      makeAbove s
      makeLink s target

/-- Put nodes at paths, one after another. -/
def putAll (nodes : List (String × Node)) : Change Unit := nodes.forM fun e => put e.1 e.2

/-- Remove the empty directory that stands at a path.  It cannot be removed under the name that a
directory has for itself. -/
def removeEmpty (s : String) : Change Unit := do
  let loc ← place s
  if (Tree.segments s).getLast? = some "." then refuse .ownName
  match (← get).tree.node? loc with
  | some .directory => erase loc
  | some _ => refuse .notDirectory
  | none => lacks loc

/-- Remove the file or link that stands at a path. -/
def removeOne (s : String) : Change Unit := do
  let loc ← place s
  if ((← get).tree.node? loc).isNone then lacks loc
  else if Path.last s = "" then refuse .notDirectory
  else erase loc

/-- Whether a path is itself a link. -/
def isLink (s : String) : Change Bool :=
  tryCatch (do
    let loc ← place s
    match (← get).tree.node? loc with
    | some (.link _) => return Path.last s ≠ ""
    | _ => return false) fun _ => return false

/-- Remove what stands at a path, and all below it; a link is removed itself.  A directory is
emptied before it is removed, so that it may not be found any more under the name it was given. -/
def remove (s : String) : Change Unit := do
  match (← get).directoryAt? s, ← isLink s with
  | some real, false =>
      erase real
      store real .directory
      removeEmpty s
  | _, _ => removeOne s

/-- Remove what stands at paths, one after another. -/
def removeAll (paths : List String) : Change Unit := paths.forM remove

/-- Let just these paths be neither listed nor opened. -/
def deny (paths : List Path) : Change Unit := modify fun fs => fs.deny paths

end Change

/-- What a change makes of a file system, and why it failed if it did. -/
def FileSystem.apply (fs : FileSystem) (c : Change Unit) : FileSystem × Option Refusal :=
  match (c.run).run fs with
  | (.ok _, fs) => (fs, none)
  | (.error refusal, fs) => (fs, some refusal)

end Unimported
