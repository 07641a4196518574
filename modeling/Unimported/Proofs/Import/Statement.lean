import Unimported.Import.Span
import Unimported.Proofs.Text.Word

/-!
# Printed modules

The other side of reading specifiers: a module as a sequence of statements, and how it is printed.
A statement is an import with a clause, an import for its effect alone, a re-export, or any line
that does not hold the word `from`.  Each kind carries what it takes to be of this kind, so that
every value can be printed.

## Main definitions

* `Blanks`, `Clause`, `Quoted`, `FromPart`, `Line` — the parts of statements.
* `Statement`, `Ending` — the statements, and how they end.
* `print` — the text of a module.
* `Statement.imported?` — the specifier that an import with a clause asks for.
-/

namespace Unimported.Import

open Text (isBlank HasWord)

/-! ### Keywords -/

/-- The word that starts an import. -/
def importWord : List Char := ['i', 'm', 'p', 'o', 'r', 't']

/-- The word that starts an export. -/
def exportWord : List Char := ['e', 'x', 'p', 'o', 'r', 't']

/-- The word that stands in front of a specifier. -/
def fromWord : List Char := ['f', 'r', 'o', 'm']

/-! ### The parts of statements -/

/-- Blanks, at least one. -/
structure Blanks where
  /-- The blanks. -/
  chars : List Char
  /-- There is one. -/
  nonempty : chars ≠ []
  /-- They are blank. -/
  blank : ∀ c ∈ chars, isBlank c = true

/-- What an import or a re-export takes from a module. -/
structure Clause where
  /-- The text, which may cross lines. -/
  chars : List Char
  /-- It is not empty. -/
  nonempty : chars ≠ []
  /-- It starts with no blank. -/
  head : ∀ c ∈ chars.head?, isBlank c = false
  /-- It ends in no blank. -/
  last : ∀ c ∈ chars.getLast?, isBlank c = false
  /-- It holds no quote and no semicolon. -/
  plain : ∀ c ∈ chars, c ≠ '\'' ∧ c ≠ '"' ∧ c ≠ ';'
  /-- It does not hold the word `import`. -/
  noImport : ¬ HasWord importWord chars
  /-- It does not hold the word `export`. -/
  noExport : ¬ HasWord exportWord chars

/-- A specifier between two equal quotes. -/
structure Quoted where
  /-- The quote. -/
  quote : Char
  /-- It is a quote. -/
  isQuote : quote = '\'' ∨ quote = '"'
  /-- The specifier. -/
  chars : List Char
  /-- It is not empty. -/
  nonempty : chars ≠ []
  /-- It holds no quote and no line feed. -/
  plain : ∀ c ∈ chars, isSpecifierChar c = true

/-- The text of a quoted specifier. -/
def Quoted.text (q : Quoted) : List Char := q.quote :: (q.chars ++ [q.quote])

/-- A quoted specifier without blanks. -/
def Quoted.Solid (q : Quoted) : Prop := ∀ c ∈ q.chars, isBlank c = false

/-- A clause and the module that it is taken from. -/
structure FromPart where
  /-- Blanks before the clause. -/
  before : Blanks
  /-- The clause. -/
  clause : Clause
  /-- Blanks behind the clause. -/
  between : Blanks
  /-- Blanks behind the word `from`. -/
  after : Blanks
  /-- The module. -/
  source : Quoted

/-- The text behind the clause. -/
def FromPart.tail (p : FromPart) : List Char :=
  p.between.chars ++ fromWord ++ p.after.chars ++ p.source.text

/-- The text of a clause with its module. -/
def FromPart.text (p : FromPart) : List Char := p.before.chars ++ p.clause.chars ++ p.tail

/-- A line without the word `from`.  It may hold anything else: comments, quotes, the words
`import` and `export`. -/
structure Line where
  /-- The text. -/
  chars : List Char
  /-- It is one line. -/
  single : '\n' ∉ chars
  /-- It does not hold the word `from`. -/
  noFrom : ¬ HasWord fromWord chars

/-! ### Statements -/

/-- A statement of a module. -/
inductive Statement where
  /-- An import with a clause. -/
  | importFrom (p : FromPart) : Statement
  /-- An import for its effect alone. -/
  | sideEffect (gap : Blanks) (source : Quoted) (solid : source.Solid) : Statement
  /-- A re-export. -/
  | reExport (p : FromPart) (solid : p.source.Solid) : Statement
  /-- Anything else on one line. -/
  | line (l : Line) : Statement

/-- How a statement ends. -/
inductive Ending where
  /-- With its line. -/
  | lineFeed : Ending
  /-- With a semicolon and its line. -/
  | semicolon : Ending

/-- The text of a statement. -/
def Statement.text : Statement → List Char
  | .importFrom p => importWord ++ p.text
  | .sideEffect gap source _ => importWord ++ gap.chars ++ source.text
  | .reExport p _ => exportWord ++ p.text
  | .line l => l.chars

/-- The text of an ending. -/
def Ending.text : Ending → List Char
  | .lineFeed => ['\n']
  | .semicolon => [';', '\n']

/-- The text of a module. -/
def print : List (Statement × Ending) → List Char
  | [] => []
  | (s, e) :: m => s.text ++ e.text ++ print m

/-- The specifier that an import with a clause asks for. -/
def Statement.imported? : Statement → Option String
  | .importFrom p => some (String.ofList p.source.chars)
  | _ => none

end Unimported.Import
