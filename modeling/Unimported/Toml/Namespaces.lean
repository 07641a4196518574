import Unimported.Toml.Flaw
import Unimported.Value.Table

/-!
# Namespaces of a TOML document

A document opens tables by headers and by dotted keys, and a table may be opened only once by a
header, while values written inline are closed for good.  What may still be opened or extended is
kept as marks on keys, beside the values.

## Main definitions

* `Toml.atKey` — change the table behind a key, opening tables on the way.
* `Toml.appendTable` — add an empty table to the array behind a key.
* `Toml.Marks` — which keys are closed for headers, and which for good.
-/

namespace Unimported.Toml

/-- Change the table behind a key.  Tables that are missing are opened; with `throughArrays` an
array stands for its last table.  There is none behind any other value. -/
def atKey (throughArrays : Bool) (change : Table → Except Flaw Table) :
    Key → Table → Except Flaw Table
  | [], t => change t
  | k :: ks, t =>
      match Table.get? t k with
      | none => (atKey throughArrays change ks []).map fun sub => Table.set t k (.table sub)
      | some (.table sub) =>
          (atKey throughArrays change ks sub).map fun sub => Table.set t k (.table sub)
      | some (.list items) =>
          match throughArrays, items.getLast? with
          | true, some (.table sub) =>
              (atKey throughArrays change ks sub).map fun sub =>
                Table.set t k (.list (items.dropLast ++ [.table sub]))
          | _, _ => .error .taken
      | some _ => .error .taken

/-- Add a value under a name, which is a flaw when the name has one. -/
def addNew (flaw : Flaw) (name : String) (value : Value) (t : Table) : Except Flaw Table :=
  match Table.get? t name with
  | none => .ok (Table.set t name value)
  | some _ => .error flaw

/-- Add an empty table to the array under a name. -/
def appendUnder (name : String) (t : Table) : Except Flaw Table :=
  match Table.get? t name with
  | none => .ok (Table.set t name (.list [.table []]))
  | some (.list items) => .ok (Table.set t name (.list (items ++ [.table []])))
  | some _ => .error .taken

/-- Add an empty table to the array behind a key. -/
def appendTable (key : Key) (t : Table) : Except Flaw Table :=
  atKey true (appendUnder (key.getLast?.getD "")) key.dropLast t

/-- Which keys are closed. -/
structure Marks where
  /-- Keys whose table no header may open again. -/
  opened : List Key := []
  /-- Keys whose value is closed for good, with all that lies behind it. -/
  closed : List Key := []
  /-- Keys that count as opened from the next header on. -/
  pending : List Key := []

namespace Marks

/-- Whether a key lies behind a value that is closed for good. -/
def isClosed (m : Marks) (key : Key) : Bool := m.closed.any fun k => k.isPrefixOf key

/-- Whether no header may open a key again. -/
def isOpened (m : Marks) (key : Key) : Bool := m.opened.contains key

/-- Close a key for headers. -/
def markOpened (m : Marks) (key : Key) : Marks := { m with opened := key :: m.opened }

/-- Close a key for good. -/
def markClosed (m : Marks) (key : Key) : Marks := { m with closed := key :: m.closed }

/-- Let the keys that wait for the next header count as opened. -/
def settle (m : Marks) : Marks := { m with opened := m.pending ++ m.opened, pending := [] }

/-- Forget all marks on a key and behind it. -/
def forget (m : Marks) (key : Key) : Marks :=
  { m with
    opened := m.opened.filter fun k => !key.isPrefixOf k
    closed := m.closed.filter fun k => !key.isPrefixOf k }

end Marks

end Unimported.Toml
