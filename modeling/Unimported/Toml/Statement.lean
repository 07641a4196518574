import Unimported.Toml.Namespaces
import Unimported.Toml.Quoted
import Unimported.Toml.Scalar

/-!
# Statements of a TOML document

A document is a sequence of statements, one to a line: a key with its value, the header of a
table, or the header of a new table in an array.  A header is read up to its closing brackets,
because its key is looked at before them.

## Main definitions

* `Toml.Statement` — what a document says.
* `Toml.value` — read a value.
* `Toml.statement`, `Toml.closing`, `Toml.ending` — the parts of a line.
-/

namespace Unimported.Toml

/-- What a line of a document says. -/
inductive Statement where
  /-- A key of the current table has a value. -/
  | pair (key : Key) (value : Value) : Statement
  /-- A table becomes the current one. -/
  | table (key : Key) : Statement
  /-- A new table of an array becomes the current one. -/
  | item (key : Key) : Statement
  deriving Inhabited

/-! ### Keys -/

/-- Whether a character may stand in a name without quotes. -/
def isBare (c : Char) : Bool := c.isAlphanum || c = '-' || c = '_'

/-- One name of a key. -/
def keyName : Reader String := do
  let cs ← get
  match cs with
  | '\'' :: rest =>
      set rest
      return String.ofList (← literalText "'" isControl)
  | '"' :: rest =>
      set rest
      return String.ofList (← basicText false cs.length)
  | _ =>
      let name := cs.takeWhile isBare
      if name.isEmpty then fail .notName
      set (cs.dropWhile isBare)
      return String.ofList name

/-- A key: names with dots between them, and the blanks after it. -/
def key : (fuel : Nat) → Reader Key
  | 0 => fail .notName
  | fuel + 1 => do
      let name ← keyName
      skip isSpace
      if ← skipIf "." then
        skip isSpace
        return name :: (← key fuel)
      else return [name]

/-! ### Values -/

/-- Whether a value written inline is closed for good. -/
def isContainer : Value → Bool
  | .list _ | .table _ => true
  | _ => false

/-- Add a pair to an inline table; keys behind the values that stand in it are closed. -/
def addInline (closed : List Key) (k : Key) (v : Value) (t : Table) : Except Flaw Table :=
  if closed.any fun c => c.isPrefixOf k then .error (.closedForGood k)
  else
    let name := k.getLast?.getD ""
    atKey false (addNew (.givenTwice name) name v) k.dropLast t

/-- How much an array weighs. -/
def arrayWeight : Nat := 2

/-- How much an inline table weighs. -/
def tableWeight : Nat := 3

/-- The depth that is left inside a value of a given weight. -/
def inside (weight depth : Nat) : Reader Nat :=
  if depth < weight then throw .tooDeep else return depth - weight

mutual

/-- A value. -/
def value : (fuel depth : Nat) → Reader Value
  | 0, _ => fail .notValue
  | fuel + 1, depth => do
      match ← get with
      | '"' :: _ => return .text (← doubleQuoted)
      | '\'' :: _ => return .text (← singleQuoted)
      | '[' :: rest =>
          let depth ← inside arrayWeight depth
          set rest
          skipFiller rest.length
          if ← skipIf "]" then return .list []
          return .list (← items fuel depth)
      | '\x7b' :: rest =>
          let depth ← inside tableWeight depth
          set rest
          skip isSpace
          if ← skipIf "\x7d" then return .table []
          return .table (← pairs fuel depth [] [])
      | _ =>
          if ← skipIf "true" then return .truth true
          if ← skipIf "false" then return .truth false
          scalar

/-- The items of an array, up to its closing bracket. -/
def items : (fuel depth : Nat) → Reader (List Value)
  | 0, _ => fail .openArray
  | fuel + 1, depth => do
      let v ← value fuel depth
      skipFiller (← get).length
      if ← skipIf "]" then return [v]
      expect "," .openArray
      skipFiller (← get).length
      if ← skipIf "]" then return [v]
      return v :: (← items fuel depth)

/-- The pairs of an inline table, up to its closing brace. -/
def pairs : (fuel depth : Nat) → List Key → Table → Reader Table
  | 0, _, _, _ => fail .openTable
  | fuel + 1, depth, closed, t => do
      let k ← key (← get).length
      expect "=" .notPair
      skip isSpace
      let v ← value fuel depth
      let t ← obey (addInline closed k v t)
      skip isSpace
      if ← skipIf "\x7d" then return t
      expect "," .openTable
      skip isSpace
      pairs fuel depth (if isContainer v then k :: closed else closed) t

end

/-! ### Statements -/

/-- Whether a character may start a key. -/
def startsKey (c : Char) : Bool := isBare c || c = '"' || c = '\''

/-- The statement that a line holds, if it holds one; a header without its closing brackets. -/
def statement : Reader (Option Statement) := do
  let cs ← get
  let fuel := 2 * cs.length + 2
  match cs with
  | [] | '\n' :: _ | '#' :: _ => return none
  | '[' :: '[' :: rest =>
      set rest
      skip isSpace
      return some (.item (← key fuel))
  | '[' :: rest =>
      set rest
      skip isSpace
      return some (.table (← key fuel))
  | c :: _ =>
      if !startsKey c then fail .notStatement
      let k ← key fuel
      expect "=" .notPair
      skip isSpace
      return some (.pair k (← value fuel Unimported.Fault.deepestNesting))

/-- The closing brackets of a header. -/
def closing : Statement → Reader Unit
  | .pair _ _ => return
  | .table _ => expect "]" .openHeader
  | .item _ => expect "]]" .openItemHeader

/-- The rest of a line behind its statement. -/
def ending : Reader Unit := do
  skip isSpace
  skipComment
  match ← get with
  | [] => return
  | '\n' :: rest => set rest
  | _ => fail .moreOnLine

end Unimported.Toml
