import Unimported.Number.Binary64

/-!
# Shortest decimals

A number is written with the fewest decimal digits that read back as the same number; of those
decimals, the nearest to it, and of two that are equally near, the one with the even last digit.
The digits are written positionally when the leading one stands between the fourth place after
the point and the sixteenth before it, and with an exponent of at least two digits otherwise.

## Main definitions

* `Binary64.shortest` — the digits and their exponent.
* `Binary64.text` — the written form.
-/

namespace Unimported.Binary64

/-- The exponent of the leading decimal digit of `num / den`. -/
def leadingExponent (num den : Nat) : Int :=
  if den ≤ num then (digitCount (num / den) : Int) - 1
  else
    let places := digitCount den - digitCount num
    if den ≤ num * Nat.pow 10 places then -(places : Int) else -(places : Int) - 1

/-- Digits without the zeros at their end; `fuel` bounds how many are dropped. -/
def dropZeros : (fuel : Nat) → Nat → Int → Nat × Int
  | 0, d, k => (d, k)
  | fuel + 1, d, k => if d % 10 = 0 then dropZeros fuel (d / 10) (k + 1) else (d, k)

/-- The decimal of the given unit that reads back as `num / den` and is nearest to it. -/
def onGrid? (target : Binary64) (num den : Nat) (unit : Int) : Option Nat :=
  let (n, d) :=
    if 0 ≤ unit then (num, den * Nat.pow 10 unit.toNat)
    else (num * Nat.pow 10 (-unit).toNat, den)
  let low := n / d
  let readsBack (q : Nat) : Bool := q != 0 && ofDecimal false q unit == target
  match readsBack low, readsBack (low + 1) with
  | true, true => some (roundHalfEven n d)
  | true, false => some low
  | false, true => some (low + 1)
  | false, false => none

/-- The digits and the exponent of the shortest decimal of a positive number. -/
def shortest (significand : Nat) (exponent : Int) : Nat × Int :=
  let (num, den) := shift significand 1 exponent
  let lead := leadingExponent num den
  let target := finite false significand exponent
  let found := (List.range 17).findSome? fun (n : Nat) =>
    let unit := lead - (n : Int)
    (onGrid? target num den unit).map fun q => (q, unit)
  let (d, k) := found.getD (significand, exponent)
  dropZeros 400 d k

/-- Digits laid out around the point, or with an exponent. -/
def layout (digits : Nat) (exponent : Int) : String :=
  let ds := Nat.toDigits 10 digits
  let point : Int := ds.length + exponent
  if -4 < point ∧ point ≤ 16 then
    if point ≤ 0 then
      String.ofList ('0' :: '.' :: (List.replicate (-point).toNat '0' ++ ds))
    else if point < ds.length then
      String.ofList (ds.take point.toNat ++ '.' :: ds.drop point.toNat)
    else String.ofList (ds ++ List.replicate (point.toNat - ds.length) '0' ++ ['.', '0'])
  else
    let e := point - 1
    let ed := Nat.toDigits 10 e.natAbs
    let mantissa := match ds with
      | [d] => [d]
      | d :: more => d :: '.' :: more
      | [] => []
    String.ofList (mantissa ++ 'e' :: (if e < 0 then '-' else '+') ::
      (List.replicate (2 - ed.length) '0' ++ ed))

/-- The written form of a number. -/
def text : Binary64 → String
  | nan => "nan"
  | infinite false => "inf"
  | infinite true => "-inf"
  | finite negative significand exponent =>
      let body :=
        if significand = 0 then "0.0"
        else let (d, k) := shortest significand exponent; layout d k
      if negative then "-" ++ body else body

end Unimported.Binary64
