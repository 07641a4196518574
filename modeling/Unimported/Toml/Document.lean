import Unimported.Toml.Statement

/-!
# TOML documents

The statements of a document build up a table.  A pair goes into the current table; the tables on
the way to it are opened by its dotted key, which may not reach into a table that a header has
opened.  A header opens a table once; the header of an array item adds a table to its array and
frees the names behind it.

## Main definitions

* `Toml.Draft`, `Toml.Draft.add` — the document so far, and one more statement.
* `Toml.Draft.addLines` — what the lines of a text add.
* `Toml.read` — the table of a document.
-/

namespace Unimported.Toml

/-- The document read so far. -/
structure Draft where
  /-- The values. -/
  data : Table := []
  /-- Which keys are closed. -/
  marks : Marks := {}
  /-- The key of the current table. -/
  current : Key := []

namespace Draft

/-- The keys of the tables on the way to a dotted key. -/
def onTheWay (current k : Key) : List Key :=
  (List.range (k.length - 1)).map fun i => current ++ k.take (i + 1)

/-- Add a pair to the current table. -/
def addPair (d : Draft) (k : Key) (v : Value) : Except Flaw Draft :=
  let way := onTheWay d.current k
  let parent := d.current ++ k.dropLast
  match way.find? d.marks.isOpened with
  | some declared => .error (.declaredBefore declared)
  | none =>
      if d.marks.isClosed parent then .error (.closedForGood parent)
      else
        let marks := { d.marks with pending := way ++ d.marks.pending }
        let marks := if isContainer v then marks.markClosed (d.current ++ k) else marks
        (atKey true (addNew .taken (k.getLast?.getD "") v) parent d.data).map fun data =>
          { d with data, marks }

/-- Open a table. -/
def openTable (d : Draft) (k : Key) : Except Flaw Draft :=
  let marks := d.marks.settle
  if marks.isOpened k || marks.isClosed k then .error (.declaredTwice k)
  else (atKey true .ok k d.data).map fun data => ⟨data, marks.markOpened k, k⟩

/-- Open a new table of an array. -/
def openItem (d : Draft) (k : Key) : Except Flaw Draft :=
  let marks := d.marks.settle
  if marks.isClosed k then .error (.closedForGood k)
  else (appendTable k d.data).map fun data => ⟨data, (marks.forget k).markOpened k, k⟩

/-- Add a statement. -/
def add (d : Draft) : Statement → Except Flaw Draft
  | .pair k v => d.addPair k v
  | .table k => d.openTable k
  | .item k => d.openItem k

/-- Add what a line says. -/
def addLine (d : Draft) : Reader Draft := do
  skip isSpace
  match ← statement with
  | none =>
      ending
      return d
  | some s =>
      let d ← obey (d.add s)
      closing s
      ending
      return d

/-- Add what all lines say. -/
def addLines : (fuel : Nat) → Draft → Reader Draft
  | 0, d => return d
  | fuel + 1, d => do
      if (← get).isEmpty then return d
      addLines fuel (← d.addLine)

end Draft

/-- The table of a document. -/
def read (document : List Char) : Except Fault Table :=
  let cs := Text.joinCrLf document
  match (Draft.addLines (cs.length + 1) {}).run cs with
  | .ok (d, _) => .ok d.data
  | .error fault => .error fault

end Unimported.Toml
