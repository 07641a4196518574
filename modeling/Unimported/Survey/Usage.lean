import Unimported.Import.Resolver
import Unimported.Import.Source
import Unimported.Settings.Basic

/-!
# Targets in use

Every specifier of every source file that resolves to a target puts this target into use.  The
targets are gathered before anything is judged, and they form a set, so neither the order of the
files nor the order of the checks can change a verdict.

## Main definitions

* `Edge`, `Usage.edges` — what a file imports.
* `Usage.Tally`, `Usage.gather` — the targets that files put into use.
* `Usage.containsAny` — whether a text occurs in some target.
-/

namespace Unimported

/-- An import of a file. -/
structure Edge where
  /-- The importing file. -/
  origin : Path
  /-- What it imports. -/
  specifier : String
  /-- The target; none when a package is imported. -/
  target : Option String
  deriving DecidableEq, Repr, Inhabited

namespace Usage

/-- The edge of a specifier. -/
def edge (r : Resolver) (p : Path) (specifier : String) : Edge :=
  ⟨p, specifier, r.resolve specifier p.parent⟩

/-- The imports of a file. -/
def edges (fs : FileSystem) (r : Resolver) (p : Path) : Traced (List Edge) := do
  let specifiers ← Source.imports fs p
  return specifiers.map (edge r p)

/-- A set of targets with those of more edges. -/
def addEdges (used : StringSet) (es : List Edge) : StringSet :=
  (es.filterMap Edge.target).foldl StringSet.insert used

/-- What has been gathered. -/
structure Tally where
  /-- How many files were read. -/
  count : Nat := 0
  /-- The targets in use. -/
  used : StringSet := .empty

/-- Go on to a file.  `isSource` tells by its name whether a file is read. -/
def Tally.add (fs : FileSystem) (r : Resolver) (isSource : String → Except Fault Bool)
    (t : Tally) (p : Path) : Traced Tally := do
  if ← .ofFault (isSource p.name) then
    let es ← edges fs r p
    return ⟨t.count + 1, addEdges t.used es⟩
  else return t

/-- Go on through files. -/
def Tally.addAll (fs : FileSystem) (r : Resolver) (isSource : String → Except Fault Bool) :
    Tally → List Path → Traced Tally
  | t, [] => .done t
  | t, p :: ps => do addAll fs r isSource (← t.add fs r isSource p) ps

/-- The record of what was gathered. -/
def gatheredText (count : Nat) (used : StringSet) : String :=
  "Scanned " ++ toString count ++ " source files, " ++ toString used.size ++
    " logical paths in use"

/-- Write down what was gathered, and give the targets. -/
def Tally.close (t : Tally) : Traced StringSet := do
  .note .debug .usage (gatheredText t.count t.used)
  return t.used

/-- The targets that files put into use. -/
def gather (fs : FileSystem) (r : Resolver) (isSource : String → Except Fault Bool)
    (files : List Path) : Traced StringSet := do
  (← Tally.addAll fs r isSource {} files).close

/-- Whether a name ends in one of the extensions of a setting. -/
def isSource (x : Extensions) (name : String) : Except Fault Bool :=
  .ok (x.suffixes.any fun s => Text.closes s name)

/-- Whether a name ends in one of some values; the first that fits decides, and a value before it
that is no text is no ending. -/
def endsInOne (name : String) : List Value → Except Fault Bool
  | [] => .ok false
  | .text s :: rest => if Text.closes s name then .ok true else endsInOne name rest
  | _ :: _ => .error .notSuffix

/-- Whether a name ends in one of the items of a value. -/
def isSourceFor (v : Value) : Except Fault (String → Except Fault Bool) :=
  match v.elements? with
  | some items => .ok fun name => endsInOne name items
  | none => .error .notItems

/-- Whether one of some texts occurs in some target. -/
def containsAny (used : StringSet) (needles : List String) : Bool :=
  used.members.any fun path => needles.any fun n => Text.occursIn n path

/-- The short form of a set of targets. -/
def summary (used : StringSet) : String := "UsedSet(" ++ toString used.size ++ " paths)"

theorem containsAny_iff {used : StringSet} {needles : List String} :
    containsAny used needles = true ↔
      ∃ path ∈ used, ∃ n ∈ needles, n.toList <:+: path.toList := by
  simp [containsAny, Text.occursIn_iff]

theorem mem_addEdges {used : StringSet} {es : List Edge} {s : String} :
    s ∈ addEdges used es ↔ (∃ e ∈ es, e.target = some s) ∨ s ∈ used := by
  simp [addEdges, StringSet.mem_foldl_insert]

end Usage

end Unimported
