/-!
# Occurrences

Whether one text occurs inside another, opens it or closes it, by code points.

## Main definitions

* `Text.occursIn` — one text inside another.
* `Text.opens`, `Text.closes` — one text at the start, at the end of another.

## Main results

* `occursIn_iff` — an occurrence is an infix; `opens_iff`, `closes_iff` likewise.
-/

namespace Unimported.Text

/-- Whether `needle` occurs as a block of `hay`. -/
def infixOf (needle : List Char) : List Char → Bool
  | [] => needle.isEmpty
  | c :: cs => needle.isPrefixOf (c :: cs) || infixOf needle cs

theorem infixOf_iff {needle hay : List Char} : infixOf needle hay = true ↔ needle <:+: hay := by
  induction hay with
  | nil => simp [infixOf]
  | cons c cs ih => simp [infixOf, List.infix_cons_iff, List.isPrefixOf_iff_prefix, ih]

/-- Whether `needle` occurs in `hay`. -/
def occursIn (needle hay : String) : Bool := infixOf needle.toList hay.toList

/-- Whether `hay` starts with `needle`. -/
def opens (needle hay : String) : Bool := needle.toList.isPrefixOf hay.toList

/-- Whether `hay` ends with `needle`. -/
def closes (needle hay : String) : Bool := needle.toList.isSuffixOf hay.toList

theorem occursIn_iff {needle hay : String} :
    occursIn needle hay = true ↔ needle.toList <:+: hay.toList := infixOf_iff

theorem opens_iff {needle hay : String} :
    opens needle hay = true ↔ needle.toList <+: hay.toList := List.isPrefixOf_iff_prefix

theorem closes_iff {needle hay : String} :
    closes needle hay = true ↔ needle.toList <:+ hay.toList := List.isSuffixOf_iff_suffix

end Unimported.Text
