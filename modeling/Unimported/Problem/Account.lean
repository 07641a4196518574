import Unimported.Problem
import Unimported.Value.Basic

/-!
# Accounts of problems

A problem may also be told by a caller, from loose values.  Its account keeps the message as it was
given.  A message that is no text can be written in front of details, but it cannot be all that is
said.

## Main definitions

* `Problem.Account`, `Problem.Account.text` — what is told of a problem, and how it reads.
* `Problem.account` — the account of a problem of the audit's own.
* `Problem.Account.build` — an account from a list of arguments.

## Main results

* `Problem.Account.text_account` — the account of a problem reads as the problem does.
-/

namespace Unimported.Problem

/-- What is told of a problem. -/
structure Account where
  /-- The kind. -/
  kind : Kind
  /-- The message. -/
  message : Value
  /-- The named details. -/
  details : List (String × String)
  deriving Inhabited

/-- The account of a problem. -/
def account (p : Problem) : Account := ⟨p.kind, .text p.message, p.details⟩

namespace Account

/-- The message with the details behind it. -/
def text (a : Account) : Except Fault String :=
  if a.details.isEmpty then
    match a.message with
    | .text s => .ok s
    | _ => .error .notText
  else a.message.plain.map fun s => s ++ detailsText a.details

/-- The details that a value gives: the values of a table, each as a text. -/
def detailsOf (v : Value) : Except Fault (List (String × String)) :=
  if v.isTrue then
    match v with
    | .table entries => entries.mapM fun e => e.2.plain.map fun s => (e.1, s)
    | _ => .error .notTable
  else .ok []

/-- The path that a value gives. -/
def pathOf (v : Value) : Except Fault Path :=
  match v with
  | .text s => .ok (.ofString s)
  | _ => .error .notText

/-- An account of a given kind from a list of arguments. -/
def build (k : Kind) (args : List Value) : Except Fault Account :=
  match k, args with
  | .general, [m] | .analysis, [m] | .configuration, [m] => .ok ⟨k, m, []⟩
  | .general, [m, d] | .analysis, [m, d] | .configuration, [m, d] =>
      (detailsOf d).map fun details => ⟨k, m, details⟩
  | .file, [p, r] => do return account (.file (← pathOf p) (← r.plain))
  | .directory, [p, r] => do return account (.directory (← pathOf p) (← r.plain))
  | .noSource, [p, r] => do return account (.noSource (← pathOf p) (← r.plain))
  | .setting, [key, v, r] => do
      return account (.setting (← key.plain) (← v.shown) (← r.plain))
  | _, _ => .error .arity

/-- The account of a problem reads as the problem does. -/
theorem text_account (p : Problem) : p.account.text = .ok p.text := by
  unfold text Problem.text
  by_cases h : p.details = []
  · simp [account, h]
  · simp [account, h, Value.plain, Except.map]

end Account

end Unimported.Problem
