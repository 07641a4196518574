/-!
# Faults

A fault stops a run without being a problem that the audit reports: a value, a path or a file that
no step was prepared for.

## Main definitions

* `Fault` — the faults.
* `Fault.deepestNesting` — how many things may stand inside each other.
-/

namespace Unimported

/-- What can stop a run without being a problem of the audit's own. -/
inductive Fault where
  /-- A value that holds no items is gone through item by item. -/
  | notItems : Fault
  /-- A value that cannot be a member of a set is put into one. -/
  | notFixed : Fault
  /-- Something that is no text is taken for the end of a name. -/
  | notSuffix : Fault
  /-- Something that is no text is taken for a path or for all that a problem says. -/
  | notText : Fault
  /-- A value is given to a setting that does not exist. -/
  | unknownField (name : String) : Fault
  /-- A problem is built from too few or too many arguments. -/
  | arity : Fault
  /-- A value that is given by name is given in another way already. -/
  | givenTwice : Fault
  /-- A plain value is given where a path, settings or a check have to be. -/
  | plainValue : Fault
  /-- Something that is no text is looked for in a text. -/
  | notSought : Fault
  /-- Something that is no table is taken for details. -/
  | notTable : Fault
  /-- A remark has a status that no line is known for. -/
  | unknownStatus (status : String) : Fault
  /-- A path leads around a loop of links. -/
  | linkLoop : Fault
  /-- A path holds the zero character, which no name can hold. -/
  | zeroCharacter : Fault
  /-- A path, or a name in it, is too long to be asked about. -/
  | nameTooLong : Fault
  /-- A settings file is not written in UTF-8. -/
  | notUtf8 : Fault
  /-- A whole number has too many digits to be read or written. -/
  | longNumeral : Fault
  /-- Links, values or directories stand too deep inside each other. -/
  | tooDeep : Fault
  deriving DecidableEq, Repr, Inhabited

/-- How many things may stand inside each other: values in values, links in the targets of links,
directories that are made at once or that a walk is in. -/
def Fault.deepestNesting : Nat := 980

end Unimported
