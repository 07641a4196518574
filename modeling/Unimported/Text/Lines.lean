/-!
# Line endings

A line ends in a line feed, a carriage return, or the two together.

## Main definitions

* `Text.unifyNewlines` — every line ending as a line feed.
* `Text.joinCrLf` — only the pair as a line feed, a lone carriage return as it is.
* `Text.splitLines` — the parts of a text between line feeds.

## Main results

* `not_mem_unifyNewlines` — no carriage return is left.
-/

namespace Unimported.Text

/-- The text with each line ending written as a line feed. -/
def unifyNewlines : List Char → List Char
  | [] => []
  | '\r' :: '\n' :: cs => '\n' :: unifyNewlines cs
  | c :: cs => (if c = '\r' then '\n' else c) :: unifyNewlines cs

/-- The text with each carriage return that stands before a line feed left out. -/
def joinCrLf : List Char → List Char
  | [] => []
  | '\r' :: '\n' :: cs => '\n' :: joinCrLf cs
  | c :: cs => c :: joinCrLf cs

theorem not_mem_unifyNewlines (cs : List Char) : '\r' ∉ unifyNewlines cs := by
  fun_induction unifyNewlines cs with
  | case1 => simp
  | case2 cs ih => simp [ih]
  | case3 c cs _ ih =>
    by_cases h : c = '\r'
    · simp [h, ih]
    · simp [h, ih, Ne.symm h]

/-- A text without carriage returns is left as it is. -/
theorem unifyNewlines_of_not_mem {cs : List Char} (h : '\r' ∉ cs) : unifyNewlines cs = cs := by
  fun_induction unifyNewlines cs with
  | case1 => rfl
  | case2 cs ih => simp at h
  | case3 c cs _ ih =>
    simp only [List.mem_cons, not_or] at h
    simp [Ne.symm h.1, ih h.2]

/-- The parts of a text between line feeds; the empty text has one part. -/
def splitLines (cs : List Char) : List (List Char) :=
  match cs with
  | [] => [[]]
  | '\n' :: cs => [] :: splitLines cs
  | c :: cs =>
      match splitLines cs with
      | [] => [[c]]
      | l :: ls => (c :: l) :: ls

end Unimported.Text
