/-!
# Ranges of code points

Properties of characters that no rule describes are data: a list of closed ranges of code
points.  The tables themselves stand in the modules named for their property.

## Main definitions

* `CodeRanges`, `CodeRanges.contains` — a property as ranges, and its test.
-/

namespace Unimported

/-- A property of characters, as closed ranges of code points. -/
structure CodeRanges where
  /-- First and last code point of each range. -/
  ranges : List (Nat × Nat)

/-- Whether some range holds the character. -/
def CodeRanges.contains (t : CodeRanges) (c : Char) : Bool :=
  t.ranges.any fun r => r.1 ≤ c.toNat && c.toNat ≤ r.2

theorem CodeRanges.contains_iff {t : CodeRanges} {c : Char} :
    t.contains c = true ↔ ∃ r ∈ t.ranges, r.1 ≤ c.toNat ∧ c.toNat ≤ r.2 := by
  simp [CodeRanges.contains, List.any_eq_true]

end Unimported
