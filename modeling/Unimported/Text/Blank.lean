import Unimported.Text.Ranges

/-!
# Blank characters

A character is blank when it counts as white space in the widest sense: the ASCII blanks and
the four information separators, NEL, the no-break space, and every Unicode space, line and
paragraph separator.

## Main definitions

* `Text.isBlank` — the test.
* `Text.trimEnd` — a text without the blanks at its end.
-/

namespace Unimported.Text

/-- The blank characters. -/
def blanks : CodeRanges :=
  ⟨[(9, 13), (28, 32), (133, 133), (160, 160), (5760, 5760), (8192, 8202), (8232, 8233),
    (8239, 8239), (8287, 8287), (12288, 12288)]⟩

/-- Whether a character is white space. -/
def isBlank (c : Char) : Bool := blanks.contains c

/-- The text without the blanks at its end. -/
def trimEnd (cs : List Char) : List Char := (cs.reverse.dropWhile isBlank).reverse

/-- Whether a text holds nothing but blanks; the empty text does. -/
def allBlank (s : String) : Bool := s.toList.all isBlank

example : (blanks.ranges.map fun r => r.2 + 1 - r.1).sum = 29 := by decide

/-- What core calls white space is blank. -/
theorem isBlank_of_isWhitespace {c : Char} (h : c.isWhitespace = true) : isBlank c = true := by
  simp only [Char.isWhitespace, Bool.or_eq_true, decide_eq_true_eq] at h
  rcases h with ((h | h) | h) | h <;> subst h <;> decide

end Unimported.Text
