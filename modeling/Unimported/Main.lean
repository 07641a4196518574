import Unimported.CommandLine.Run

/-!
# The command

The outermost layer.  It takes into a file system what a run may look at, runs the command on it,
and writes what the run printed and the journal that it showed.  At first only the project root is
listed, which is enough to load the settings; then the source root is taken with all that a walk
reaches.  Files that are not read for imports are taken without their contents.  The terminal is
one that knows no emoji.
-/

namespace Unimported.Main

/-- Which parts of a directory are taken. -/
structure Scope where
  /-- Whether a directory of this name is entered. -/
  enters : String → Bool
  /-- Whether a file of this name is read. -/
  reads : String → Bool

/-- What has been taken from the disk. -/
structure Disk where
  /-- The file system so far. -/
  fs : FileSystem
  /-- The directories that have been listed. -/
  listed : List Location

/-- What is needed for the settings: the project root and no directory in it. -/
def rootScope : Scope := ⟨fun _ => false, fun name => name = Settings.fileName⟩

/-- What is needed for an audit: the directories that a walk enters, the source files, and the
entry file. -/
def auditScope (s : Settings) : Scope :=
  let skip := (Walk.skipNames s.skipDirs).toOption.getD []
  ⟨fun name => !Walk.isHidden name && !skip.contains name,
    fun name => s.sourceExtensions.suffixes.any (fun x => Text.closes x name) ||
      name = (Path.ofString s.entryFile).name⟩

/-- The location that a written absolute path names. -/
def locationOf (text : String) : Location := (Path.ofString text).segments

/-- The written path of a location. -/
def textOf (loc : Location) : String := Path.text ⟨.root, loc⟩

/-- The target of a link that leads nowhere: a name that no file has. -/
def nowhere : String := "\x00"

/-- The place of a path, as far as the links on it are known. -/
def placeOf (fs : FileSystem) (p : Path) : Location :=
  let dir := (fs.tree.canonical fs.longestPath fs.cwd p.parent).toOption.getD p.parent
  (if p.segments.isEmpty then fs.start p else (dir.absolute fs.cwd).segments ++ [p.name])

/-- A file system with a node at a place. -/
def withNode (fs : FileSystem) (loc : Location) (n : Node) : FileSystem :=
  { fs with tree := fs.tree.insert loc n }

/-- Add a node. -/
def Disk.add (disk : Disk) (loc : Location) (n : Node) : Disk :=
  { disk with fs := { disk.fs with tree := ⟨.of loc n :: disk.fs.tree.entries⟩ } }

/-- Add a location that can be neither listed nor read. -/
def Disk.deny (disk : Disk) (loc : Location) : Disk :=
  { disk with fs := { disk.fs with denied := ⟨.root, loc⟩ :: disk.fs.denied } }

/-- Add the file at a location. -/
def Disk.addFile (scope : Scope) (disk : Disk) (loc : Location) : IO Disk := do
  if !scope.reads (loc.getLast?.getD "") then return disk.add loc (.file [])
  match ← (IO.FS.readBinFile (textOf loc)).toBaseIO with
  | .ok bytes => return disk.add loc (.file bytes.toList)
  | .error _ => return (disk.add loc (.file [])).deny loc

/-- Add what lies in a directory and, as far as the scope goes, below it. -/
partial def Disk.addBelow (scope : Scope) (disk : Disk) (dir : Location) : IO Disk := do
  if disk.listed.contains dir then return disk
  let disk := { disk with listed := dir :: disk.listed }
  let listing := do (← IO.FS.realPath (textOf dir)).readDir
  match ← listing.toBaseIO with
  | .error _ => return disk.deny dir
  | .ok entries => entries.foldlM addEntry disk
where
  /-- Add an entry of the directory. -/
  addEntry (disk : Disk) (entry : IO.FS.DirEntry) : IO Disk := do
    let loc := dir ++ [entry.fileName]
    match ← (IO.FS.realPath entry.path).toBaseIO with
    | .error _ => return disk.add loc (.link nowhere)
    | .ok real =>
        let target := locationOf real.toString
        let enters := scope.enters entry.fileName
        if target = loc then
          if ← real.isDir then
            let disk := disk.add loc .directory
            if enters then disk.addBelow scope loc else return disk
          else disk.addFile scope loc
        else
          let disk := disk.add loc (.link (textOf target))
          if ← real.isDir then
            let disk := { disk with fs := withNode disk.fs target .directory }
            if enters then disk.addBelow scope target else return disk
          else disk.addFile scope target

/-- Add the directory at a path, which may lead through links. -/
def Disk.addDirectory (scope : Scope) (disk : Disk) (p : Path) : IO Disk := do
  let p := p.absolute disk.fs.cwd
  match ← (IO.FS.realPath p.text).toBaseIO with
  | .error _ => return disk
  | .ok real =>
      let place := placeOf disk.fs p
      if !(← real.isDir) then return { disk with fs := withNode disk.fs place (.file []) }
      let target := locationOf real.toString
      let fs := withNode disk.fs target .directory
      let fs := if place = target then fs else withNode fs place (.link (textOf target))
      { disk with fs := fs }.addBelow scope target

/-- What a run with given options may look at. -/
def lookAt (o : CommandLine.Options) : IO FileSystem := do
  let cwd := locationOf (← IO.currentDir).toString
  let empty : FileSystem := { tree := Tree.insert ⟨[]⟩ cwd .directory, cwd := cwd }
  let disk ← Disk.addDirectory rootScope ⟨empty, []⟩ o.rootPath
  match o.settings disk.fs with
  | .error _ => return disk.fs
  | .ok s =>
      let source := Audit.sourceRoot o.rootPath s
      return (← Disk.addDirectory (auditScope s) { disk with listed := [] } source).fs

/-- How the program is used. -/
def usage : String :=
  "usage: ui-sweep [-C|--root DIRECTORY] [-v|--verbose] [-q|--quiet] [--version] [--help]"

/-- A record as a line. -/
def recordLine (r : Record) : String := r.level.name ++ " " ++ r.channel.name ++ ": " ++ r.message

/-- Write out how a run ended. -/
def report (o : CommandLine.Outcome) : IO UInt32 := do
  for r in o.journal do IO.eprintln (recordLine r)
  if o.output.isEmpty then IO.eprintln usage else IO.print o.output
  return UInt32.ofNat o.status

/-- Run the command. -/
def run (args : List String) : IO UInt32 := do
  let fs ← match CommandLine.read args with
    | .ok o => lookAt o
    | .error _ => pure default
  match CommandLine.run fs args with
  | .ok outcome => report outcome
  | .error _ =>
      IO.eprintln "The settings or the source tree cannot be used."
      return 1

end Unimported.Main

/-- The command. -/
def main (args : List String) : IO UInt32 := Unimported.Main.run args
