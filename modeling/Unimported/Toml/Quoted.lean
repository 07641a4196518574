import Unimported.Toml.Reader

/-!
# Quoted texts of TOML

A text stands between double quotes, with escapes, or between single quotes, as it is.  Three quotes
of either kind open a text that may cross lines; a line end right behind them does not belong to it.

## Main definitions

* `Toml.doubleQuoted`, `Toml.singleQuoted` — read a text from its opening quote.
* `Toml.basicText`, `Toml.literalText` — the rest of a text behind its opening quote.
-/

namespace Unimported.Toml

/-- The character of an escape that gives a code point in so many digits. -/
def codePoint (digits : Nat) : Reader (List Char) := do
  let cs ← get
  let ds := cs.take digits
  if ds.length != digits || !ds.all isHex then fail .notHex
  set (cs.drop digits)
  let n := ofHex ds
  if n.isValidChar then return [Char.ofNat n] else fail .notCharacter

/-- What stands after a backslash at the end of a line: blanks and line ends, which are skipped. -/
def lineJoin : Reader (List Char) := do
  skip isSpace
  match ← get with
  | [] => return []
  | '\n' :: _ =>
      skip fun c => isSpace c || c = '\n'
      return []
  | _ => fail .notEscape

/-- The characters that an escape stands for, after its backslash. -/
def escape (inLines : Bool) : Reader (List Char) := do
  match ← get with
  | [] => fail .notEscape
  | c :: rest =>
      if inLines && (isSpace c || c = '\n') then lineJoin
      else
        set rest
        match c with
        | 'b' => return ['\x08']
        | 't' => return ['\t']
        | 'n' => return ['\n']
        | 'f' => return ['\x0c']
        | 'r' => return ['\r']
        | '"' => return ['"']
        | '\\' => return ['\\']
        | 'u' => codePoint 4
        | 'U' => codePoint 8
        | _ => fail .notEscape

/-- The rest of a text with escapes, up to its closing quotes. -/
def basicText (inLines : Bool) : (fuel : Nat) → Reader (List Char)
  | 0 => fail .openText
  | fuel + 1 => do
      match ← get with
      | [] => fail .openText
      | '"' :: rest =>
          if !inLines then
            set rest
            return []
          else if ← skipIf "\"\"\"" then return []
          else
            set rest
            return '"' :: (← basicText inLines fuel)
      | '\\' :: rest =>
          set rest
          let cs ← escape inLines
          return cs ++ (← basicText inLines fuel)
      | c :: rest =>
          if (if inLines then isControlInLines c else isControl c) then
            fail (.illegalCharacter c)
          set rest
          return c :: (← basicText inLines fuel)

/-- What stands before and behind the first place where a mark occurs. -/
def cutAt (mark : List Char) : List Char → Option (List Char × List Char)
  | [] => none
  | c :: cs =>
      if mark.isPrefixOf (c :: cs) then some ([], (c :: cs).drop mark.length)
      else (cutAt mark cs).map fun parts => (c :: parts.1, parts.2)

/-- The rest of a text without escapes, up to its closing quotes.  That they are missing matters
more than a stray character. -/
def literalText (quotes : String) (stray : Char → Bool) : Reader (List Char) := do
  match cutAt quotes.toList (← get) with
  | none =>
      set ([] : List Char)
      fail (.openLiteral quotes)
  | some (body, rest) =>
      refuse stray body
      set rest
      return body

/-- One or two quotes that stand before the closing three belong to the text. -/
def extraQuotes (quote : String) : Reader (List Char) := do
  if ← skipIf quote then
    if ← skipIf quote then return quote.toList ++ quote.toList
    return quote.toList
  return []

/-- A text with escapes, from its opening quote. -/
def doubleQuoted : Reader String := do
  let fuel := (← get).length
  if ← skipIf "\"\"\"" then
    let _ ← skipIf "\n"
    let body ← basicText true fuel
    return String.ofList (body ++ (← extraQuotes "\""))
  else
    let _ ← skipIf "\""
    return String.ofList (← basicText false fuel)

/-- A text without escapes, from its opening quote. -/
def singleQuoted : Reader String := do
  if ← skipIf "'''" then
    let _ ← skipIf "\n"
    let body ← literalText "'''" isControlInLines
    return String.ofList (body ++ (← extraQuotes "'"))
  else
    let _ ← skipIf "'"
    return String.ofList (← literalText "'" isControl)

end Unimported.Toml
