import Unimported.Text.Occurrence

/-!
# Options of the command line

An argument that starts with a dash and goes on is an option.  A long option has two dashes and a
name, and its value stands behind `=` or is the next argument.  Short options have one letter, and
several may share an argument; the option that takes a value takes the rest of its argument or, when
nothing is left, the next one, whatever that looks like.  Two dashes alone end the options.  An
option that is given again replaces what it said before.

## Main definitions

* `CommandLine.Options` — what a command line asks for.
* `CommandLine.Argument`, `CommandLine.Argument.ofString` — what an argument says.
* `CommandLine.read` — the options of a command line.
-/

namespace Unimported.CommandLine

/-- The options that take no value. -/
inductive Flag where
  /-- Show the whole journal. -/
  | verbose : Flag
  /-- Show errors only. -/
  | quiet : Flag
  /-- Tell the version. -/
  | version : Flag
  /-- Tell how the program is used. -/
  | help : Flag
  deriving DecidableEq, Repr, Inhabited

/-- What a command line asks for. -/
structure Options where
  /-- The project root, as it was written. -/
  root : String := "."
  /-- The flags that were given. -/
  flags : List Flag := []
  /-- The arguments that are no options. -/
  operands : List String := []
  deriving DecidableEq, Repr, Inhabited

/-- What makes a command line unreadable. -/
inductive UsageError where
  /-- No option has this name. -/
  | unknownOption (name : String) : UsageError
  /-- The option needs a value and there is none. -/
  | missingValue (name : String) : UsageError
  /-- The option takes no value and has one. -/
  | unwantedValue (name : String) : UsageError
  deriving DecidableEq, Repr, Inhabited

/-- What an argument says. -/
inductive Argument where
  /-- The options end here. -/
  | endOfOptions : Argument
  /-- It is no option. -/
  | operand : Argument
  /-- It gives flags. -/
  | flags (flags : List Flag) : Argument
  /-- It gives flags and the root. -/
  | root (flags : List Flag) (value : String) : Argument
  /-- It gives flags, and the next argument is the root; the option is called so. -/
  | rootNext (flags : List Flag) (name : String) : Argument
  deriving DecidableEq, Repr, Inhabited

namespace Argument

/-- The flag of a long name. -/
def longFlag? : String → Option Flag
  | "--verbose" => some .verbose
  | "--quiet" => some .quiet
  | "--version" => some .version
  | "--help" => some .help
  | _ => none

/-- The flag of a letter. -/
def shortFlag? : Char → Option Flag
  | 'v' => some .verbose
  | 'q' => some .quiet
  | _ => none

/-- What a long option says; its value is what stands behind `=`, if that is there. -/
def ofLong (name : String) (value : Option String) : Except UsageError Argument :=
  if name = "--root" then
    .ok (match value with
      | some v => .root [] v
      | none => .rootNext [] name)
  else
    match longFlag? name, value with
    | none, _ => .error (.unknownOption name)
    | some _, some _ => .error (.unwantedValue name)
    | some flag, none => .ok (.flags [flag])

/-- What the letters of an argument say, after the flags before them. -/
def ofLetters (before : List Flag) : List Char → Except UsageError Argument
  | [] => .ok (.flags before)
  | c :: cs =>
      if c = 'C' then
        .ok (if cs.isEmpty then .rootNext before "-C" else .root before (String.ofList cs))
      else
        match shortFlag? c with
        | some flag => ofLetters (before ++ [flag]) cs
        | none => .error (.unknownOption (String.ofList ['-', c]))

/-- The name of a long option and its value. -/
def cutValue (cs : List Char) : String × Option String :=
  let name := String.ofList (cs.takeWhile (· != '='))
  match cs.dropWhile (· != '=') with
  | [] => (name, none)
  | _ :: value => (name, some (String.ofList value))

/-- What an argument says. -/
def ofString (s : String) : Except UsageError Argument :=
  match s.toList with
  | ['-', '-'] => .ok .endOfOptions
  | '-' :: '-' :: cs =>
      let (name, value) := cutValue ('-' :: '-' :: cs)
      ofLong name value
  | '-' :: c :: cs => ofLetters [] (c :: cs)
  | _ => .ok .operand

end Argument

namespace Options

/-- Whether a flag was given. -/
def has (o : Options) (flag : Flag) : Bool := o.flags.contains flag

/-- The options with more flags. -/
def addFlags (o : Options) (flags : List Flag) : Options := { o with flags := o.flags ++ flags }

/-- The options with another root. -/
def setRoot (o : Options) (value : String) : Options := { o with root := value }

/-- The options with more arguments that are none. -/
def addOperands (o : Options) (operands : List String) : Options :=
  { o with operands := o.operands ++ operands }

end Options

/-- Read arguments, after the options before them. -/
def readFrom (o : Options) : List String → Except UsageError Options
  | [] => .ok o
  | arg :: rest =>
      match Argument.ofString arg with
      | .error e => .error e
      | .ok .endOfOptions => .ok (o.addOperands rest)
      | .ok .operand => readFrom (o.addOperands [arg]) rest
      | .ok (.flags flags) => readFrom (o.addFlags flags) rest
      | .ok (.root flags value) => readFrom ((o.addFlags flags).setRoot value) rest
      | .ok (.rootNext flags name) =>
          match rest with
          | [] => .error (.missingValue name)
          | value :: rest => readFrom ((o.addFlags flags).setRoot value) rest

/-- The options of a command line. -/
def read (args : List String) : Except UsageError Options := readFrom {} args

example : (read ["-vC", "-q"]).toOption = some ⟨"-q", [.verbose], []⟩ := by decide +kernel

example : (read ["--root=a=b", "--", "-v"]).toOption = some ⟨"a=b", [], ["-v"]⟩ := by
  decide +kernel

end Unimported.CommandLine
