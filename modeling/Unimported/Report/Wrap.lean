import Unimported.Report.CellWidth
import Unimported.Text.Blank
import Unimported.Text.Lines

/-!
# Wrapping

A printed text is wrapped to the width of the terminal.  It is taken word by word, a word with the
blanks behind it, the first also with those before it.  A word goes on the current line when it
fits there without the blanks behind it.  A word that fits on no line is chopped, each piece on a
line of its own; any other word starts a new line.  Lines that came out too long lose blanks at
their end, as far as they have more characters than the width, and are then cut to the width.

## Main definitions

* `Report.words` — a text cut into words.
* `Report.chop` — a word cut into pieces that fit on a line.
* `Report.fill` — words laid out on lines.
* `Report.printed` — what a text looks like on a terminal of a given width.
-/

namespace Unimported.Report

open Text (isBlank trimEnd)

/-! ### Words -/

/-- Cut a text into words; blanks alone make no word.  `fuel` bounds their number. -/
def wordsFrom : (fuel : Nat) → List Char → List (List Char)
  | 0, _ => []
  | fuel + 1, cs =>
      let before := cs.takeWhile isBlank
      let rest := cs.dropWhile isBlank
      let core := rest.takeWhile fun c => !isBlank c
      let rest := rest.dropWhile fun c => !isBlank c
      if core.isEmpty then []
      else (before ++ core ++ rest.takeWhile isBlank) :: wordsFrom fuel (rest.dropWhile isBlank)

/-- Cut a text into words. -/
def words (cs : List Char) : List (List Char) := wordsFrom cs.length cs

/-- Continue to chop a word, after a piece of the given width. -/
def chopFrom (width : Nat) (piece : List Char) (used : Nat) : List Char → List (List Char)
  | [] => [piece]
  | c :: cs =>
      if width < used + cellWidth c then piece :: chopFrom width [c] (cellWidth c) cs
      else chopFrom width (piece ++ [c]) (used + cellWidth c) cs

/-- Chop a word into pieces that take `width` cells at most.  The first piece is empty when not
even one character fits. -/
def chop (width : Nat) (word : List Char) : List (List Char) := chopFrom width [] 0 word

/-! ### Lines -/

/-- Lay words out on lines.  The line so far takes `used` cells; it is empty only before the first
word, where no line is ended. -/
def fill (width : Nat) : (line : List Char) → (used : Nat) → List (List Char) → List (List Char)
  | line, _, [] => [line]
  | line, used, word :: rest =>
      let bare := cells (trimEnd word)
      if used + bare ≤ width then fill width (line ++ word) (used + cells word) rest
      else if width < bare then
        let pieces := chop width word
        let lines := if line.isEmpty then pieces.dropWhile List.isEmpty else line :: pieces
        let last := lines.getLast?.getD []
        lines.dropLast ++ fill width last (cells last) rest
      else line :: fill width word (cells word) rest

/-- A line with more characters than the width loses blanks at its end, but no more than it is too
long. -/
def trimExcess (width : Nat) (line : List Char) : List Char :=
  let blanks := line.length - (trimEnd line).length
  line.take (line.length - min blanks (line.length - width))

/-- Look for the place where a line that is too wide is cut, between two positions; a wide
character that would be cut through becomes a blank. -/
def cutBetween (width : Nat) (line : List Char) : (fuel low high : Nat) → List Char
  | 0, low, _ => line.take (low + 1)
  | fuel + 1, low, high =>
      let middle := (low + high) / 2
      let before := line.take (middle + 1)
      let size := cells before
      if size = width + 1 ∧ before.getLast?.map cellWidth = some 2 then before.dropLast ++ [' ']
      else if size = width then before
      else if width < size then cutBetween width line fuel low middle
      else cutBetween width line fuel middle high

/-- A line cut to the width. -/
def fit (width : Nat) (line : List Char) : List Char :=
  if width < cells line then cutBetween width line (line.length + 1) 0 line.length else line

/-! ### Printing -/

/-- Whether a character is taken out of what is printed. -/
def isDropped (c : Char) : Bool :=
  c = '\x07' || c = '\x08' || c = '\x0b' || c = '\x0c' || c = '\r'

/-- The distance between tab stops. -/
def tabSize : Nat := 8

/-- A text with blanks in place of each tab, up to the next tab stop; `used` cells stand before. -/
def expandTabs (used : Nat) : List Char → List Char
  | [] => []
  | c :: cs =>
      if c = '\t' then
        let blanks := tabSize - used % tabSize
        List.replicate blanks ' ' ++ expandTabs (used + blanks) cs
      else c :: expandTabs (used + cellWidth c) cs

/-- A text without line feeds, wrapped. -/
def wrapLine (width : Nat) (cs : List Char) : List (List Char) :=
  let cs := expandTabs 0 cs
  let lines := match words cs with
    | [] => [cs]
    | ws => fill width [] 0 ws
  lines.map fun line => fit width (trimExcess width line)

/-- What a text looks like on a terminal of a given width.  On one without any, nothing does. -/
def printed (width : Nat) (cs : List Char) : List Char :=
  if width = 0 then []
  else
    ((Text.splitLines (cs.filter fun c => !isDropped c)).flatMap (wrapLine width)).flatMap
      fun line => line ++ ['\n']

end Unimported.Report
