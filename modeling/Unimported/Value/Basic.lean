import Unimported.Number.Shortest
import Unimported.Calendar
import Unimported.Fault
import Unimported.Text.Quoted

/-!
# Values of settings

A setting arrives as a value of any kind that a settings document or a caller can give.  Which
values a setting accepts is decided elsewhere; here stand the values, their written form in
messages, and the views on them that settings are read through.  A value in which a number is too
long, or in which values stand too deep inside each other, has no written form.

## Main definitions

* `Value` — the values.
* `Value.shown`, `Value.plain` — the written form, and that of a text standing alone.
* `Value.isTrue` — whether a value counts as true.
* `Value.elements?` — what a value holds when it is gone through item by item.
* `Value.isFixed` — whether a value can be a member of a set.
-/

namespace Unimported

/-- A value of a setting. -/
inductive Value where
  /-- The absence of a value. -/
  | null : Value
  /-- A truth value. -/
  | truth (b : Bool) : Value
  /-- A whole number. -/
  | integer (n : Int) : Value
  /-- A floating-point number. -/
  | real (x : Binary64) : Value
  /-- A text. -/
  | text (s : String) : Value
  /-- A day. -/
  | date (d : Date) : Value
  /-- A time of day. -/
  | time (t : TimeOfDay) : Value
  /-- A day and a time. -/
  | moment (m : Moment) : Value
  /-- A sequence as a document gives it. -/
  | list (items : List Value) : Value
  /-- A sequence as a setting keeps it. -/
  | tuple (items : List Value) : Value
  /-- Named values in their order. -/
  | table (entries : List (String × Value)) : Value
  deriving Inhabited

namespace Value

/-- Brackets around items with commas between them. -/
def bracketed (openMark closeMark : String) (items : List String) : String :=
  openMark ++ ", ".intercalate items ++ closeMark

/-- A tuple of one item keeps a comma, so that it is told from a bracketed value. -/
def tupleText : List String → String
  | [item] => "(" ++ item ++ ",)"
  | items => bracketed "(" ")" items

/-- The most decimal digits that a whole number is read or written with. -/
def longestNumeral : Nat := 4300

/-- A whole number in decimal; one with too many digits is not written. -/
def numeral (n : Int) : Except Fault String :=
  if n.natAbs < Nat.pow 10 longestNumeral then .ok (toString n) else .error .longNumeral

mutual

/-- The written form of a value, when so many levels are left for it. -/
def shownWithin : (levels : Nat) → Value → Except Fault String
  | 0, _ => .error .tooDeep
  | _ + 1, null => .ok "None"
  | _ + 1, truth true => .ok "True"
  | _ + 1, truth false => .ok "False"
  | _ + 1, integer n => numeral n
  | _ + 1, real x => .ok x.text
  | _ + 1, text s => .ok (Text.quoted s)
  | _ + 1, date d => .ok d.text
  | _ + 1, time t => .ok t.text
  | _ + 1, moment m => .ok m.text
  | levels + 1, list items => return bracketed "[" "]" (← shownItems levels items)
  | levels + 1, tuple items => return tupleText (← shownItems levels items)
  | levels + 1, table entries => return bracketed "\x7b" "\x7d" (← shownEntries levels entries)

/-- The written forms of items. -/
def shownItems : (levels : Nat) → List Value → Except Fault (List String)
  | _, [] => .ok []
  | levels, v :: vs => return (← shownWithin levels v) :: (← shownItems levels vs)

/-- The written forms of named values. -/
def shownEntries : (levels : Nat) → List (String × Value) → Except Fault (List String)
  | _, [] => .ok []
  | levels, (k, v) :: rest =>
      return (Text.quoted k ++ ": " ++ (← shownWithin levels v)) :: (← shownEntries levels rest)

end

/-- The written form of a value in a message. -/
def shown (v : Value) : Except Fault String := v.shownWithin Fault.deepestNesting

/-- A text as it stands, any other value in its written form. -/
def plain : Value → Except Fault String
  | text s => .ok s
  | v => v.shown

/-- Whether a value counts as true: nothing empty, no zero and no absence does. -/
def isTrue : Value → Bool
  | null => false
  | truth b => b
  | integer n => n != 0
  | real x => !x.isZero
  | text s => s != ""
  | date _ | time _ | moment _ => true
  | list items | tuple items => !items.isEmpty
  | table entries => !entries.isEmpty

/-- What a value holds when it is gone through item by item: the characters of a text, the items
of a sequence, the names of a table.  The other values hold no items. -/
def elements? : Value → Option (List Value)
  | text s => some (s.toList.map fun c => text (String.singleton c))
  | list items | tuple items => some items
  | table entries => some (entries.map fun e => text e.1)
  | _ => none

mutual

/-- Whether a value can be a member of a set: sequences from documents and tables cannot. -/
def isFixed : Value → Bool
  | list _ | table _ => false
  | tuple items => allFixed items
  | _ => true

/-- Whether all items can be members of a set. -/
def allFixed : List Value → Bool
  | [] => true
  | v :: vs => isFixed v && allFixed vs

end

/-- Whether a value is the absence of one. -/
def isNull : Value → Bool
  | null => true
  | _ => false

/-- The text of a value that is one. -/
def text? : Value → Option String
  | text s => some s
  | _ => none

/-- A sequence of texts as a setting keeps it. -/
def texts (ss : List String) : Value := tuple (ss.map text)

@[simp] theorem elements?_texts (ss : List String) :
    (texts ss).elements? = some (ss.map text) := rfl

theorem allFixed_map_text (ss : List String) : allFixed (ss.map text) = true := by
  induction ss with
  | nil => simp [allFixed]
  | cons s ss ih => simp [allFixed, isFixed, ih]

example : (tuple [text "a"]).shown.toOption = some "('a',)" := by decide +kernel

end Value

end Unimported
