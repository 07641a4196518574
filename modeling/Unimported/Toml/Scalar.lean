import Unimported.Toml.Reader
import Unimported.Value.Basic

/-!
# Numbers, dates and times of TOML

What is neither a text nor a truth value nor a container is tried as a day, as a time of day and as
a number, in this order; so a day in front decides, and one that does not exist is a fault.

## Main definitions

* `Toml.dayOrMoment`, `Toml.timeOfDay`, `Toml.number` — what is tried.
* `Toml.scalar` — read whichever it is.
-/

namespace Unimported.Toml

/-! ### Dates and times -/

/-- So many decimal digits, as a number within bounds. -/
def digits (count low high : Nat) : Attempt Nat := do
  let cs ← get
  let ds := cs.take count
  let n := Binary64.ofDigits ds
  guard (ds.length = count ∧ ds.all Char.isDigit ∧ low ≤ n ∧ n ≤ high)
  set (cs.drop count)
  return n

/-- A given character. -/
def mark (p : Char → Bool) : Attempt Char := do
  match ← get with
  | c :: rest =>
      guard (p c)
      set rest
      return c
  | [] => failure

/-- The microseconds of a fraction of a second; further digits are dropped. -/
def fraction : Attempt Nat := do
  let _ ← mark (· = '.')
  let ds := (← get).takeWhile Char.isDigit
  guard (!ds.isEmpty)
  modify (·.dropWhile Char.isDigit)
  let ds := ds.take 6
  return Binary64.ofDigits ds * Nat.pow 10 (6 - ds.length)

/-- A time of day. -/
def timeOfDay : Attempt TimeOfDay := do
  let hour ← digits 2 0 23
  let _ ← mark (· = ':')
  let minute ← digits 2 0 59
  let _ ← mark (· = ':')
  let second ← digits 2 0 59
  let micro ← fraction <|> pure 0
  return ⟨hour, minute, second, micro⟩

/-- The minutes ahead of universal time. -/
def offset : Attempt Int := do
  let sign ← mark fun c => c = 'Z' || c = 'z' || c = '+' || c = '-'
  if sign = 'Z' || sign = 'z' then return 0
  else
    let hour ← digits 2 0 23
    let _ ← mark (· = ':')
    let minute ← digits 2 0 59
    let n : Int := (hour * 60 + minute : Nat)
    return if sign = '-' then -n else n

/-- A day. -/
def day : Attempt Date := do
  let year ← digits 4 0 9999
  let _ ← mark (· = '-')
  let month ← digits 2 1 12
  let _ ← mark (· = '-')
  let day ← digits 2 1 31
  return ⟨year, month, day⟩

/-- A day, or a day and a time; the day need not exist. -/
def dayOrMoment : Attempt (Date × Value) := do
  let date ← day
  let time ← (do
    let _ ← mark fun c => c = 'T' || c = 't' || c = ' '
    let time ← timeOfDay
    let offset ← (some <$> offset) <|> pure none
    return some (time, offset)) <|> pure none
  match time with
  | none => return (date, .date date)
  | some (time, offset) => return (date, .moment ⟨date, time, offset⟩)

/-! ### Numbers -/

/-- The digits that follow a first one; an underscore may stand between two. -/
def moreDigits (p : Char → Bool) : List Char → List Char × List Char
  | '_' :: c :: cs =>
      if p c then
        let (ds, rest) := moreDigits p cs
        (c :: ds, rest)
      else ([], '_' :: c :: cs)
  | c :: cs =>
      if p c then
        let (ds, rest) := moreDigits p cs
        (c :: ds, rest)
      else ([], c :: cs)
  | [] => ([], [])

/-- A run of digits, without the underscores between them. -/
def digitRun (p : Char → Bool) : Attempt (List Char) := do
  let first ← mark p
  let (ds, rest) := moreDigits p (← get)
  set rest
  return first :: ds

/-- A whole number in another base, after its mark. -/
def based (letter : Char) (p : Char → Bool) (base : Nat) : Attempt Value := do
  let _ ← mark (· = '0')
  let _ ← mark (· = letter)
  let ds ← digitRun p
  return .integer (ds.foldl (fun n c => base * n + ofHex [c]) 0 : Nat)

/-- The fraction of a number, if there is one. -/
def fractionDigits : Attempt (List Char) :=
  (do
    let _ ← mark (· = '.')
    digitRun Char.isDigit) <|> pure []

/-- The exponent of a number, if there is one. -/
def exponentPart : Attempt (Option Int) :=
  (do
    let _ ← mark fun c => c = 'e' || c = 'E'
    let sign ← mark (fun c => c = '+' || c = '-') <|> pure '+'
    let ds ← digitRun Char.isDigit
    let n : Int := Binary64.ofDigits ds
    return some (if sign = '-' then -n else n)) <|> pure none

/-- A decimal number; `none` for a whole number with too many digits. -/
def decimal : Attempt (Option Value) := do
  let sign ← mark (fun c => c = '+' || c = '-') <|> pure '+'
  let whole ← (do
    let zero ← mark (· = '0')
    return [zero]) <|> digitRun Char.isDigit
  let fraction ← fractionDigits
  let exponent ← exponentPart
  let negative := sign = '-'
  if fraction.isEmpty && exponent.isNone then
    if Value.longestNumeral < whole.length then return none
    let n : Int := Binary64.ofDigits whole
    return some (.integer (if negative then -n else n))
  else
    return some (.real (Binary64.ofDecimal negative (Binary64.ofDigits (whole ++ fraction))
      (exponent.getD 0 - fraction.length)))

/-- A number. -/
def number : Attempt (Option Value) :=
  (some <$> based 'x' isHex 16) <|> (some <$> based 'b' (fun c => c = '0' || c = '1') 2) <|>
    (some <$> based 'o' (fun c => '0' ≤ c && c ≤ '7') 8) <|> decimal

/-- An infinity or no number. -/
def special : Attempt Value := do
  let cs ← get
  let (_, body) := Binary64.takeSign cs
  let word := body.take 3
  guard (word = ['i', 'n', 'f'] ∨ word = ['n', 'a', 'n'])
  let length := cs.length - body.length + 3
  set (cs.drop length)
  match Binary64.ofText? (cs.take length) with
  | some x => return .real x
  | none => failure

/-! ### Either of them -/

/-- A date, a time or a number. -/
def scalar : Reader Value := do
  let cs ← get
  match dayOrMoment.run cs with
  | some ((date, v), rest) =>
      if date.isValid then
        set rest
        return v
      else fail .notDate
  | none =>
      match timeOfDay.run cs with
      | some (t, rest) =>
          set rest
          return .time t
      | none =>
          match number.run cs with
          | some (some v, rest) =>
              set rest
              return v
          | some (none, _) => throw .longNumeral
          | none =>
              match special.run cs with
              | some (v, rest) =>
                  set rest
                  return v
              | none => fail .notValue

end Unimported.Toml
