import Unimported.Tree.Canonical

/-!
# File systems

What an audit sees of the machine it runs on: a tree, a current directory, the paths that may be
neither listed nor opened, how long a path may be, and how deep directories may stand inside each
other for a walk to come to them.  A path is denied by its text, made absolute without looking at
links.  Denied means no more than that it cannot be listed or opened: whether something exists and
of what type it is can always be asked, so a directory that may not be searched, in which such a
question is refused, is not described here.  The only answer to such a question that is neither yes
nor no is that a name is too long.

A machine lists a directory in an order of its own.  Here it is the code point order of the names.

## Main definitions

* `FileSystem`, `FileSystem.locate` — the location behind a path.
* `FileSystem.reach` — the location behind a text that is taken as it stands.
* `FileSystem.isFile`, `FileSystem.isDirectory`, `FileSystem.present` — questions about a path.
* `FileSystem.list`, `FileSystem.read` — the entries of a directory, the bytes of a file.
* `FileSystem.resolve` — the canonical path.
* `FileSystem.enter`, `FileSystem.deny` — another current directory, other paths that are denied.
-/

namespace Unimported

/-- Whether a node is a file. -/
def Node.isFile : Node → Bool
  | .file _ => true
  | _ => false

/-- What is seen of a machine. -/
structure FileSystem where
  /-- The files, directories and links. -/
  tree : Tree
  /-- The current directory. -/
  cwd : Location
  /-- The paths that may be neither listed nor opened, in normal form. -/
  denied : List Path := []
  /-- The most bytes of a path, if the machine sets such a bound. -/
  longestPath : Option Nat := some 4095
  /-- How many directories deep a walk gets. -/
  deepest : Nat := Fault.deepestNesting
  deriving Inhabited

/-- What listing a directory finds. -/
structure Listing where
  /-- The path under which the directory was listed. -/
  path : Path
  /-- Where the directory really is. -/
  real : Location
  /-- The names of its entries. -/
  names : List String
  deriving Repr, Inhabited

namespace FileSystem

/-- Where a path starts. -/
def start (fs : FileSystem) (p : Path) : Location := if p.isAbsolute then [] else fs.cwd

/-- Whether a text is too long for a path. -/
def isTooLong (fs : FileSystem) (s : String) : Bool := AccessError.isLongPath fs.longestPath s

/-- What following a text gives, judged by the text: one that is too long leads nowhere, and when a
text leads nowhere the blame lies with itself first. -/
def judged (fs : FileSystem) (s : String) (found : Except AccessError Location) :
    Except AccessError Location :=
  match found with
  | .ok real => if fs.isTooLong s then .error .nameTooLong else .ok real
  | .error e => .error ((AccessError.ofText? fs.longestPath s).getD e)

/-- The location behind a path, links followed. -/
def locate (fs : FileSystem) (p : Path) : Except AccessError Location :=
  fs.judged p.text (fs.tree.follow (fs.start p) p.segments)

/-- The location behind a text that is taken as it stands, links followed.  Other than for a path,
a slash at its end asks for a directory. -/
def reach (fs : FileSystem) (s : String) : Except AccessError Location :=
  fs.judged s (fs.tree.follow (Tree.stepsFrom fs.cwd s) (Tree.steps s))

/-- What stands behind a path, links followed. -/
def node? (fs : FileSystem) (p : Path) : Except Fault (Option Node) :=
  match fs.locate p with
  | .ok real => .ok (fs.tree.node? real)
  | .error .nameTooLong => .error .nameTooLong
  | .error _ => .ok none

/-- Whether something stands behind a path. -/
def present (fs : FileSystem) (p : Path) : Except Fault Bool := (fs.node? p).map Option.isSome

/-- Whether a directory stands behind a path. -/
def isDirectory (fs : FileSystem) (p : Path) : Except Fault Bool :=
  (fs.node? p).map fun n => n = some .directory

/-- Whether a file stands behind a path. -/
def isFile (fs : FileSystem) (p : Path) : Except Fault Bool :=
  (fs.node? p).map fun n => n.any Node.isFile

/-- Whether a text, taken as it stands, leads to a file.  One that is too long leads to none. -/
def leadsToFile (fs : FileSystem) (s : String) : Except Fault Bool :=
  match fs.reach s with
  | .ok real => .ok ((fs.tree.node? real).any Node.isFile)
  | .error .zeroCharacter => .error .zeroCharacter
  | .error _ => .ok false

/-- The directory that a text, taken as it stands, leads to, if it leads to one. -/
def directoryAt? (fs : FileSystem) (s : String) : Option Location :=
  (fs.reach s).toOption.filter fs.tree.hasDirectory

/-- Whether a text, taken as it stands, leads to something. -/
def leadsAnywhere (fs : FileSystem) (s : String) : Bool :=
  (fs.reach s).toOption.any fun real => (fs.tree.node? real).isSome

/-- Whether a path may be neither listed nor opened. -/
def isDenied (fs : FileSystem) (p : Path) : Bool := fs.denied.contains (p.absolute fs.cwd)

/-- List a directory. -/
def list (fs : FileSystem) (p : Path) : Except AccessError Listing :=
  if fs.isDenied p then .error .denied
  else
    match fs.locate p with
    | .error e => .error e
    | .ok real =>
        if fs.tree.hasDirectory real then .ok ⟨p, real, fs.tree.names real⟩
        else .error .notDirectory

/-- Read a file. -/
def read (fs : FileSystem) (p : Path) : Except AccessError (List UInt8) :=
  if fs.isDenied p then .error .denied
  else
    match fs.locate p with
    | .error e => .error e
    | .ok real =>
        match fs.tree.node? real with
        | some (.file bytes) => .ok bytes
        | some .directory => .error .isDirectory
        | some (.link _) => .error .tooManyLinks
        | none => .error .missing

/-- The canonical path.  A path that goes around in a loop has none. -/
def resolve (fs : FileSystem) (p : Path) : Except Fault Path := do
  let real ← fs.tree.canonical fs.longestPath fs.cwd p
  match fs.locate real with
  | .error .tooManyLinks => .error .linkLoop
  | .error .zeroCharacter => .error .zeroCharacter
  | _ => .ok real

/-- The file system seen from another directory. -/
def enter (fs : FileSystem) (p : Path) : Except AccessError FileSystem :=
  match fs.locate p with
  | .error e => .error e
  | .ok real =>
      if fs.tree.hasDirectory real then .ok { fs with cwd := real } else .error .notDirectory

/-- The file system in which just these paths may be neither listed nor opened. -/
def deny (fs : FileSystem) (paths : List Path) : FileSystem :=
  { fs with denied := paths.map (Path.absolute fs.cwd) }

theorem list_eq_ok {fs : FileSystem} {p : Path} {l : Listing} (h : fs.list p = .ok l) :
    fs.locate p = .ok l.real ∧ fs.tree.hasDirectory l.real = true ∧
      l.names = fs.tree.names l.real ∧ l.path = p := by
  unfold list at h
  split at h
  · cases h
  · split at h
    · cases h
    · split at h
      · rename_i hl hd
        cases h
        exact ⟨hl, hd, rfl, rfl⟩
      · cases h

end FileSystem

end Unimported
