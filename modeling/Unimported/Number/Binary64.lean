/-!
# Binary floating-point numbers

A number of the 64-bit binary format, taken apart: a significand below `2 ^ 53` times a power of
two whose exponent lies between `-1074` and `971`.  A decimal is read as the nearest such number;
of two that are equally near, the one with the even significand is taken.  All arithmetic is on
natural numbers, so nothing is lost on the way.

## Main definitions

* `Binary64` — the numbers of the format.
* `Binary64.ofRatio`, `Binary64.ofDecimal` — the number nearest to a quotient, to a decimal.
* `Binary64.ofText?` — the number that a numeral writes.
-/

namespace Unimported

/-- A number of the 64-bit binary format. -/
inductive Binary64 where
  /-- No number. -/
  | nan : Binary64
  /-- An infinity. -/
  | infinite (negative : Bool) : Binary64
  /-- A significand times a power of two. -/
  | finite (negative : Bool) (significand : Nat) (exponent : Int) : Binary64
  deriving DecidableEq, Repr, Inhabited

namespace Binary64

/-- The least exponent. -/
def leastExponent : Int := -1074

/-- The greatest exponent. -/
def greatestExponent : Int := 971

/-- A quotient rounded to the nearest natural number, a half to the even one. -/
def roundHalfEven (num den : Nat) : Nat :=
  let q := num / den
  let twice := 2 * (num % den)
  if twice < den then q
  else if twice = den then (if q % 2 = 0 then q else q + 1)
  else q + 1

/-- A fraction times a power of two, as a fraction. -/
def shift (num den : Nat) (e : Int) : Nat × Nat :=
  if 0 ≤ e then (num * Nat.pow 2 e.toNat, den) else (num, den * Nat.pow 2 (-e).toNat)

/-- The number nearest to `num / den`. -/
def ofRatio (negative : Bool) (num den : Nat) : Binary64 :=
  if num = 0 then finite negative 0 leastExponent
  else
    let guess : Int := max ((num.log2 : Int) - (den.log2 : Int) - 53) leastExponent
    let (n, d) := shift num den (-guess)
    let e := if n / d < Nat.pow 2 53 then guess else guess + 1
    let (n, d) := shift num den (-e)
    let m := roundHalfEven n d
    let (m, e) := if m = Nat.pow 2 53 then (Nat.pow 2 52, e + 1) else (m, e)
    if greatestExponent < e then infinite negative else finite negative m e

/-- How many decimal digits a natural number has. -/
def digitCount (n : Nat) : Nat := (Nat.toDigits 10 n).length

/-- The number nearest to `digits * 10 ^ exponent`.  Decimals far outside the range of the format
are decided by their size alone. -/
def ofDecimal (negative : Bool) (digits : Nat) (exponent : Int) : Binary64 :=
  let size : Int := digitCount digits + exponent
  if digits = 0 ∨ size < -330 then finite negative 0 leastExponent
  else if 310 < size then infinite negative
  else if 0 ≤ exponent then ofRatio negative (digits * Nat.pow 10 exponent.toNat) 1
  else ofRatio negative digits (Nat.pow 10 (-exponent).toNat)

/-- Whether a number is a zero of either sign. -/
def isZero : Binary64 → Bool
  | finite _ 0 _ => true
  | _ => false

/-! ### Numerals -/

/-- A sign in front of a text, and the text after it. -/
def takeSign : List Char → Bool × List Char
  | '-' :: cs => (true, cs)
  | '+' :: cs => (false, cs)
  | cs => (false, cs)

/-- The natural number that decimal digits write. -/
def ofDigits (cs : List Char) : Nat := cs.foldl (fun n c => 10 * n + (c.toNat - 48)) 0

/-- The exponent part of a numeral; an empty text stands for zero. -/
def exponent? : List Char → Option Int
  | [] => some 0
  | c :: cs =>
      let (negative, ds) := takeSign cs
      if (c = 'e' ∨ c = 'E') ∧ ds ≠ [] ∧ ds.all Char.isDigit then
        some (if negative then -(ofDigits ds : Int) else ofDigits ds)
      else none

/-- The number that a numeral writes: an optional sign, then `inf`, `nan`, or digits with an
optional fraction and an optional exponent. -/
def ofText? (cs : List Char) : Option Binary64 :=
  let (negative, cs) := takeSign cs
  if cs = ['i', 'n', 'f'] then some (infinite negative)
  else if cs = ['n', 'a', 'n'] then some nan
  else
    let whole := cs.takeWhile Char.isDigit
    let rest := cs.dropWhile Char.isDigit
    let (fraction, rest) := match rest with
      | '.' :: rest => (rest.takeWhile Char.isDigit, rest.dropWhile Char.isDigit)
      | rest => ([], rest)
    if whole = [] ∧ fraction = [] then none
    else (exponent? rest).map fun e =>
      ofDecimal negative (ofDigits (whole ++ fraction)) (e - fraction.length)

end Binary64

end Unimported
