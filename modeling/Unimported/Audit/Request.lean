import Unimported.Audit

/-!
# Requests for audits

A caller who gives all values by name may also name what an audit is made of.  The project root is
given directly and cannot be given by name again; settings and checks that are given directly take
the place of those that are named.  A plain value is neither settings nor a check, so it can only
say that there are none: named settings that are something else are noticed when the project root
has been found, and a named check when its turn comes.

## Main definitions

* `Audit.request` — the audit that values ask for which are given by name.

## Main results

* `Audit.request_nil` — with nothing given by name, the settings of the project count.
-/

namespace Unimported.Audit

open Settings (rootKey mentions givesNothing without)

/-- The name of the settings among values. -/
def settingsKey : String := "config"

/-- The name of the checks among values. -/
def checksKey : String := "finders"

/-- What stops an audit that is to run a value as its checks; nothing does if it holds none.  A text
can be run only to look for something in it. -/
def refusal? (checks : Value) : Option Fault :=
  match checks.elements? with
  | none => some .notItems
  | some [] => none
  | some (.text _ :: _) => some .notSought
  | some _ => some .plainValue

/-- The audit with checks that are named among other values, or with all checks. -/
def withNamedChecks (t : Table) (audit : List Check → Traced Audit) : Traced Audit :=
  if givesNothing t checksKey then audit Check.all
  else do
    let a ← audit []
    match refusal? ((Table.get? t checksKey).getD .null) with
    | none => return a
    | some fault => .stop (.fault fault)

/-- The audit that values ask for which are given by name.  Settings and checks may be given
directly. -/
def request (fs : FileSystem) (root : Path) (settings : Option Settings)
    (checks : Option (List Check)) (values : List (String × Value)) : Traced Audit :=
  let t := Table.ofList values
  let audit (cs : List Check) : Traced Audit :=
    match settings with
    | some s => ofSettings fs root s cs
    | none =>
        if givesNothing t settingsKey then
          ofProject fs root (without (without t settingsKey) checksKey) cs
        else do
          let _ ← .ofFault (fs.resolve root)
          .stop (.fault .plainValue)
  if mentions t rootKey then .stop (.fault .givenTwice)
  else
    match checks with
    | some cs => audit cs
    | none => withNamedChecks t audit

/-- With nothing given by name, the settings of the project count. -/
@[simp] theorem request_nil (fs : FileSystem) (root : Path) (checks : List Check) :
    request fs root none (some checks) [] = ofProject fs root [] checks := rfl

end Unimported.Audit
