import Unimported.Text.Lines
import Unimported.Value.Basic

/-!
# Flaws of a TOML document

A document may break the grammar or the rules on keys.  A flaw is told with the place where reading
stopped: its line and column, counted from one, or the end of the document.  The place follows from
how much of the document was left.

## Main definitions

* `Toml.Flaw`, `Toml.Flaw.text` — the flaws and their wording.
* `Toml.Place`, `Toml.Place.ofLeft` — where in a document something stands.
* `Toml.explain` — what is said of a flaw.
-/

namespace Unimported.Toml

/-- A key: the names from the root of a document. -/
abbrev Key := List String

/-- How a key is written in a message. -/
def keyText (key : Key) : String := Value.tupleText (key.map Text.quoted)

/-- What may be wrong with a document. -/
inductive Flaw where
  /-- A line starts with no statement. -/
  | notStatement : Flaw
  /-- A line goes on behind its statement. -/
  | moreOnLine : Flaw
  /-- A name of a key is missing. -/
  | notName : Flaw
  /-- A key has no value. -/
  | notPair : Flaw
  /-- A value is missing. -/
  | notValue : Flaw
  /-- A day does not exist. -/
  | notDate : Flaw
  /-- A text without escapes does not end in its quotes. -/
  | openLiteral (quotes : String) : Flaw
  /-- A text with escapes does not end. -/
  | openText : Flaw
  /-- An array does not end. -/
  | openArray : Flaw
  /-- An inline table does not end. -/
  | openTable : Flaw
  /-- The header of a table does not end. -/
  | openHeader : Flaw
  /-- The header of an array item does not end. -/
  | openItemHeader : Flaw
  /-- A comment or a text without escapes holds a character that it may not. -/
  | strayCharacter (c : Char) : Flaw
  /-- A text with escapes holds a character that it may not. -/
  | illegalCharacter (c : Char) : Flaw
  /-- A backslash opens no escape. -/
  | notEscape : Flaw
  /-- The digits of an escape are missing. -/
  | notHex : Flaw
  /-- An escape gives a code point that is no character. -/
  | notCharacter : Flaw
  /-- A table is declared again. -/
  | declaredTwice (key : Key) : Flaw
  /-- A dotted key reaches into a table that was declared. -/
  | declaredBefore (key : Key) : Flaw
  /-- A value that was written inline is changed. -/
  | closedForGood (key : Key) : Flaw
  /-- A name has a value already. -/
  | taken : Flaw
  /-- A name of an inline table is given twice. -/
  | givenTwice (name : String) : Flaw
  deriving DecidableEq, Repr, Inhabited

/-- The wording of a flaw. -/
def Flaw.text : Flaw → String
  | notStatement => "Invalid statement"
  | moreOnLine => "Expected newline or end of document after a statement"
  | notName => "Invalid initial character for a key part"
  | notPair => "Expected '=' after a key in a key/value pair"
  | notValue => "Invalid value"
  | notDate => "Invalid date or datetime"
  | openLiteral quotes => "Expected " ++ Text.quoted quotes
  | openText => "Unterminated string"
  | openArray => "Unclosed array"
  | openTable => "Unclosed inline table"
  | openHeader => "Expected ']' at the end of a table declaration"
  | openItemHeader => "Expected ']]' at the end of an array declaration"
  | strayCharacter c => "Found invalid character " ++ Text.quoted (.singleton c)
  | illegalCharacter c => "Illegal character " ++ Text.quoted (.singleton c)
  | notEscape => "Unescaped '\\' in a string"
  | notHex => "Invalid hex value"
  | notCharacter => "Escaped character is not a Unicode scalar value"
  | declaredTwice key => "Cannot declare " ++ keyText key ++ " twice"
  | declaredBefore key => "Cannot redefine namespace " ++ keyText key
  | closedForGood key => "Cannot mutate immutable namespace " ++ keyText key
  | taken => "Cannot overwrite a value"
  | givenTwice name => "Duplicate inline table key " ++ Text.quoted name

/-- Where in a document something stands. -/
inductive Place where
  /-- In a line, at a column. -/
  | line (number column : Nat) : Place
  /-- Behind everything. -/
  | ending : Place
  deriving DecidableEq, Repr, Inhabited

namespace Place

/-- The wording of a place. -/
def text : Place → String
  | line number column => "line " ++ toString number ++ ", column " ++ toString column
  | ending => "end of document"

/-- The place behind some text. -/
def behind (before : List Char) : Place :=
  line (before.count '\n' + 1) ((before.reverse.takeWhile (· != '\n')).length + 1)

/-- The place in a document where so many characters are left. -/
def ofLeft (document : List Char) (left : Nat) : Place :=
  if left = 0 then ending else behind (document.take (document.length - left))

theorem behind_nil : behind [] = line 1 1 := rfl

/-- A line feed starts a line. -/
theorem behind_lineFeed (before : List Char) :
    behind (before ++ ['\n']) = line (before.count '\n' + 2) 1 := by
  simp [behind]

end Place

/-- What is said of a flaw in a document, of which so many characters were left. -/
def explain (document : List Char) (flaw : Flaw) (left : Nat) : String :=
  flaw.text ++ " (at " ++ (Place.ofLeft (Text.joinCrLf document) left).text ++ ")"

end Unimported.Toml
