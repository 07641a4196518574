/-!
# Dates and times

The calendar values that a settings document can hold: dates of the proleptic Gregorian calendar,
times of day to the microsecond, and moments, which join the two and may tell their distance from
universal time.

## Main definitions

* `Date`, `TimeOfDay`, `Moment` and their written forms.
* `Date.isValid` — whether a date exists.
-/

namespace Unimported

/-- A day of the calendar. -/
structure Date where
  /-- The year. -/
  year : Nat
  /-- The month, from 1. -/
  month : Nat
  /-- The day of the month, from 1. -/
  day : Nat
  deriving DecidableEq, Repr, Inhabited

/-- A time of day. -/
structure TimeOfDay where
  /-- The hour, from 0. -/
  hour : Nat
  /-- The minute, from 0. -/
  minute : Nat
  /-- The second, from 0. -/
  second : Nat
  /-- The microsecond, from 0. -/
  micro : Nat
  deriving DecidableEq, Repr, Inhabited

/-- A day and a time of day, with the minutes by which they are ahead of universal time when that
is told. -/
structure Moment where
  /-- The day. -/
  date : Date
  /-- The time of day. -/
  time : TimeOfDay
  /-- The minutes ahead of universal time. -/
  offset : Option Int
  deriving DecidableEq, Repr, Inhabited

/-- Whether a year has a leap day. -/
def isLeapYear (year : Nat) : Bool := year % 4 == 0 && (year % 100 != 0 || year % 400 == 0)

/-- How many days a month has. -/
def daysInMonth (year month : Nat) : Nat :=
  if month = 2 then (if isLeapYear year then 29 else 28)
  else if month = 4 ∨ month = 6 ∨ month = 9 ∨ month = 11 then 30
  else 31

/-- Whether a date exists; the first year is 1. -/
def Date.isValid (d : Date) : Bool :=
  1 ≤ d.year && 1 ≤ d.month && d.month ≤ 12 && 1 ≤ d.day && d.day ≤ daysInMonth d.year d.month

/-- Numbers with commas between them. -/
def commaList (ns : List Nat) : String := ", ".intercalate (ns.map toString)

/-- The numbers that are written for a date. -/
def Date.fields (d : Date) : List Nat := [d.year, d.month, d.day]

/-- The numbers that are written for a time: seconds and microseconds only as far as needed. -/
def TimeOfDay.fields (t : TimeOfDay) : List Nat :=
  [t.hour, t.minute] ++
    if t.micro ≠ 0 then [t.second, t.micro] else if t.second ≠ 0 then [t.second] else []

/-- The written form of a date. -/
def Date.text (d : Date) : String := "datetime.date(" ++ commaList d.fields ++ ")"

/-- The written form of a time. -/
def TimeOfDay.text (t : TimeOfDay) : String := "datetime.time(" ++ commaList t.fields ++ ")"

/-- The written form of an offset in minutes: whole days, counted down, and seconds after them. -/
def offsetText (minutes : Int) : String :=
  if minutes = 0 then "datetime.timezone.utc"
  else
    let seconds := minutes * 60
    let days := seconds / 86400
    let left := seconds % 86400
    let parts :=
      (if days = 0 then [] else ["days=" ++ toString days]) ++
      (if left = 0 then [] else ["seconds=" ++ toString left])
    "datetime.timezone(datetime.timedelta(" ++ ", ".intercalate parts ++ "))"

/-- The written form of a moment. -/
def Moment.text (m : Moment) : String :=
  "datetime.datetime(" ++ commaList (m.date.fields ++ m.time.fields) ++
    (match m.offset with
      | none => ""
      | some minutes => ", tzinfo=" ++ offsetText minutes) ++ ")"

example : (Moment.mk ⟨1979, 5, 27⟩ ⟨7, 32, 0, 0⟩ (some (-480))).text =
    "datetime.datetime(1979, 5, 27, 7, 32, tzinfo=datetime.timezone(datetime.timedelta(" ++
      "days=-1, seconds=57600)))" := by decide +kernel

end Unimported
