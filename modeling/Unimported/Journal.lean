import Unimported.Problem
import Unimported.Text.Occurrence

/-!
# The journal of a run

A run writes down what it does: records with a level, the part of the audit that writes, and a
message.  Which records are shown is decided by the level in force.  A step of a run is *traced*:
it has an outcome, and the records that it left behind whatever the outcome is.

## Main definitions

* `Level`, `Channel`, `Record` — what a record holds.
* `Channel.qualify` — the full name of a part of the audit.
* `Logger`, `Logger.setUp` — the level in force and how it is set.
* `Traced` — outcomes with records.

## Main results

* `Traced.outcome_bind`, `Traced.records_bind` — what a sequence of steps gives and leaves behind.
-/

namespace Unimported

/-- How much a record matters. -/
inductive Level where
  /-- A detail of the run. -/
  | debug : Level
  /-- A stage of the run. -/
  | info : Level
  /-- Something that makes the result less complete. -/
  | warning : Level
  /-- Something that stops the run. -/
  | error : Level
  /-- Above everything that a run writes. -/
  | critical : Level
  deriving DecidableEq, Repr, Inhabited

/-- The name of a level. -/
def Level.name : Level → String
  | .debug => "DEBUG"
  | .info => "INFO"
  | .warning => "WARNING"
  | .error => "ERROR"
  | .critical => "CRITICAL"

/-- The rank of a level. -/
def Level.rank : Level → Nat
  | .debug => 10
  | .info => 20
  | .warning => 30
  | .error => 40
  | .critical => 50

/-- The part of the audit that writes a record. -/
inductive Channel where
  /-- The command line. -/
  | command : Channel
  /-- The audit as a whole. -/
  | audit : Channel
  /-- The walk through the source tree. -/
  | walk : Channel
  /-- The reading of imports. -/
  | imports : Channel
  /-- The gathering of targets. -/
  | usage : Channel
  /-- The checks. -/
  | checks : Channel
  deriving DecidableEq, Repr, Inhabited

/-- The name that all channels start with. -/
def Channel.base : String := "ui_sweep"

/-- The full name of a part of the audit: the base name stands in front unless it does already. -/
def Channel.qualify : Option String → String
  | none => Channel.base
  | some name => if Text.opens Channel.base name then name else Channel.base ++ "." ++ name

/-- The full name of a channel. -/
def Channel.name : Channel → String
  | .command => "ui_sweep"
  | .audit => "ui_sweep.api"
  | .walk => "ui_sweep.scanning.walker"
  | .imports => "ui_sweep.scanning.imports"
  | .usage => "ui_sweep.graph.used_set"
  | .checks => "ui_sweep.finders.models"

/-- A line of the journal. -/
structure Record where
  /-- How much it matters. -/
  level : Level
  /-- Who wrote it. -/
  channel : Channel
  /-- What it says. -/
  message : String
  deriving DecidableEq, Repr, Inhabited

/-- How much of the journal is shown. -/
inductive Verbosity where
  /-- Errors only. -/
  | quiet : Verbosity
  /-- Warnings and errors. -/
  | normal : Verbosity
  /-- Everything. -/
  | verbose : Verbosity
  deriving DecidableEq, Repr, Inhabited

/-- The name of a verbosity. -/
def Verbosity.name : Verbosity → String
  | .quiet => "quiet"
  | .normal => "normal"
  | .verbose => "verbose"

/-- The verbosity of a name. -/
def Verbosity.ofName? : String → Option Verbosity
  | "quiet" => some .quiet
  | "normal" => some .normal
  | "verbose" => some .verbose
  | _ => none

/-- The verbosity that two flags ask for; being quiet wins. -/
def Verbosity.ofFlags (verbose quiet : Bool) : Verbosity :=
  if quiet then .quiet else if verbose then .verbose else .normal

/-- The least level that is shown. -/
def Verbosity.level : Verbosity → Level
  | .quiet => .error
  | .normal => .warning
  | .verbose => .debug

/-- Where the records of a run go. -/
structure Logger where
  /-- The least level that is shown. -/
  level : Level := .critical
  /-- How many writers the records go to. -/
  writers : Nat := 0
  /-- Whether the records also go to a wider logger. -/
  propagates : Bool := true
  deriving DecidableEq, Repr, Inhabited

/-- Set the level; a single writer takes the place of those set up before. -/
def Logger.setUp (_ : Logger) (v : Verbosity) : Logger := ⟨v.level, 1, false⟩

/-- Whether a record is shown. -/
def Logger.shows (l : Logger) (r : Record) : Bool := l.level.rank ≤ r.level.rank

/-- The outcome of a step, and the records that it left behind. -/
structure Traced (α : Type) where
  /-- The records in the order in which they were written. -/
  records : List Record
  /-- What the step gave, or what stopped it. -/
  outcome : Except Failure α

namespace Traced

/-- A step that writes nothing. -/
def ofExcept {α : Type} (x : Except Failure α) : Traced α := ⟨[], x⟩

/-- A step that writes nothing and that only a fault can stop. -/
def ofFault {α : Type} (x : Except Fault α) : Traced α := ofExcept (x.mapError Failure.fault)

/-- A step that only gives a value. -/
def done {α : Type} (a : α) : Traced α := ⟨[], .ok a⟩

/-- A step that stops the run. -/
def stop {α : Type} (f : Failure) : Traced α := ⟨[], .error f⟩

/-- A step that only writes a given record. -/
def write (r : Record) : Traced Unit := ⟨[r], .ok ()⟩

/-- A step that only writes a record. -/
def note (level : Level) (channel : Channel) (message : String) : Traced Unit :=
  write ⟨level, channel, message⟩

/-- One step after another; the second is not taken when the first stops the run. -/
def next {α β : Type} (x : Traced α) (f : α → Traced β) : Traced β :=
  match x.outcome with
  | .ok a => ⟨x.records ++ (f a).records, (f a).outcome⟩
  | .error e => ⟨x.records, .error e⟩

instance : Monad Traced where
  pure := done
  bind := next

@[simp] theorem outcome_pure {α : Type} (a : α) : (pure a : Traced α).outcome = .ok a := rfl

@[simp] theorem records_pure {α : Type} (a : α) : (pure a : Traced α).records = [] := rfl

theorem outcome_bind {α β : Type} (x : Traced α) (f : α → Traced β) :
    (x >>= f).outcome = x.outcome.bind fun a => (f a).outcome := by
  show (next x f).outcome = _
  unfold next
  cases x.outcome <;> rfl

theorem records_bind {α β : Type} (x : Traced α) (f : α → Traced β) :
    (x >>= f).records = x.records ++ match x.outcome with
      | .ok a => (f a).records
      | .error _ => [] := by
  show (next x f).records = _
  unfold next
  cases x.outcome <;> simp

end Traced

end Unimported
