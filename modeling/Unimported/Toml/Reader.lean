import Unimported.Toml.Flaw

/-!
# Readers of TOML text

A document is read from the front.  A *reader* takes what comes next and fails when it is not what
the grammar wants; an *attempt* takes what it finds or finds nothing, so that something else can be
tried.

## Main definitions

* `Toml.Fault` — why a document cannot be read.
* `Toml.Reader`, `Toml.Attempt` — readers and attempts.
* `Toml.fail`, `Toml.obey` — how a reader tells a flaw.
* `Toml.skip`, `Toml.skipIf`, `Toml.expect`, `Toml.skipFiller` — what comes between values.
-/

namespace Unimported.Toml

/-- Why a document cannot be read. -/
inductive Fault where
  /-- The document has a flaw, behind which so many characters were left. -/
  | flawed (flaw : Flaw) (left : Nat) : Fault
  /-- A decimal numeral has more digits than are converted. -/
  | longNumeral : Fault
  /-- Values stand too deep inside each other. -/
  | tooDeep : Fault
  deriving DecidableEq, Repr, Inhabited

/-- A reader takes what it reads from the front of a text. -/
abbrev Reader := StateT (List Char) (Except Fault)

/-- An attempt takes what it finds from the front of a text, or finds nothing. -/
abbrev Attempt := StateT (List Char) Option

/-! ### Characters -/

/-- The value of a hexadecimal digit. -/
def hexDigit (c : Char) : Nat :=
  if c.isDigit then c.toNat - 48 else if c.isUpper then c.toNat - 55 else c.toNat - 87

/-- The number that hexadecimal digits write. -/
def ofHex (cs : List Char) : Nat := cs.foldl (fun n c => 16 * n + hexDigit c) 0

/-- Whether a character is a hexadecimal digit. -/
def isHex (c : Char) : Bool :=
  c.isDigit || ('a' ≤ c && c ≤ 'f') || ('A' ≤ c && c ≤ 'F')

/-! ### Blanks and comments -/

/-- Whether a character is a blank inside a line. -/
def isSpace (c : Char) : Bool := c = ' ' || c = '\t'

/-- Whether a character may not stand in a comment or in a text of one line. -/
def isControl (c : Char) : Bool := (c.toNat < 32 && c != '\t') || c.toNat = 127

/-- Whether a character may not stand in a text of several lines. -/
def isControlInLines (c : Char) : Bool := isControl c && c != '\n'

/-- Fail on a flaw of the text at hand. -/
def fail {α : Type} (flaw : Flaw) : Reader α := do throw (.flawed flaw (← get).length)

/-- What a rule on keys gives; where it finds a flaw, the text at hand has it. -/
def obey {α : Type} : Except Flaw α → Reader α
  | .ok a => return a
  | .error flaw => fail flaw

/-- Skip the characters of a class. -/
def skip (p : Char → Bool) : Reader Unit := modify (·.dropWhile p)

/-- Skip a given text if it comes next, and tell whether it did. -/
def skipIf (s : String) : Reader Bool := do
  let cs ← get
  if s.toList.isPrefixOf cs then
    set (cs.drop s.toList.length)
    return true
  else return false

/-- Skip a given text, which must come next. -/
def expect (s : String) (flaw : Flaw) : Reader Unit := do
  unless ← skipIf s do fail flaw

/-- Refuse what comes next when its beginning `body` holds a stray character. -/
def refuse (stray : Char → Bool) (body : List Char) : Reader Unit := do
  match body.find? stray with
  | none => return
  | some c =>
      skip fun c => !stray c
      fail (.strayCharacter c)

/-- Skip a comment, up to the end of its line. -/
def skipComment : Reader Unit := do
  if ← skipIf "#" then
    let body := (← get).takeWhile (· != '\n')
    refuse isControl body
    skip (· != '\n')

/-- Skip blanks, line ends and comments inside an array. -/
def skipFiller : (fuel : Nat) → Reader Unit
  | 0 => return
  | fuel + 1 => do
      let before := (← get).length
      skip fun c => isSpace c || c = '\n'
      skipComment
      if (← get).length < before then skipFiller fuel

end Unimported.Toml
