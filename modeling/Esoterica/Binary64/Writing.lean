import Esoterica.Binary64.Decimal

/-!
# Writing numbers

A number is written with the fewest digits that read back. Magnitudes from `1e-6` up to but not
including `1e21` are positional, the others have an exponent with its sign, as in `1.5e+21` and
`1.5e-7`. Both zeros are written `0`.
-/

namespace Esoterica

namespace Decimal

/-- The exponent of the first digit: the value is `d.ddd * 10 ^ order`. -/
def order (decimal : Decimal) : Int :=
  (digitChars decimal.digits).length - 1 + decimal.exponent

/-- Writes the decimal without an exponent. -/
def positional (decimal : Decimal) : List Char :=
  let digits := digitChars decimal.digits
  match decimal.exponent with
  | .ofNat zeros => digits ++ List.replicate zeros '0'
  | .negSucc places =>
    let count := places + 1
    if count < digits.length then
      digits.take (digits.length - count) ++ '.' :: digits.drop (digits.length - count)
    else
      '0' :: '.' :: (List.replicate (count - digits.length) '0' ++ digits)

/-- Writes the decimal with one digit before the point and an exponent. -/
def scientific (decimal : Decimal) : List Char :=
  let mantissa :=
    match digitChars decimal.digits with
    | first :: second :: rest => first :: '.' :: second :: rest
    | single => single
  let exponent :=
    match decimal.order with
    | .ofNat power => '+' :: digitChars power
    | .negSucc power => '-' :: digitChars (power + 1)
  mantissa ++ 'e' :: exponent

/-- Orders from this one up to `largestPositional` are written without an exponent. -/
def smallestPositional : Int :=
  -6

def largestPositional : Int :=
  20

def write (decimal : Decimal) : List Char :=
  if smallestPositional ≤ decimal.order ∧ decimal.order ≤ largestPositional then
    decimal.positional
  else
    decimal.scientific

end Decimal

namespace Binary64

/-- The text of a number. -/
def write : Binary64 → List Char
  | nan => "NaN".toList
  | infinite negative => if negative then "-Infinity".toList else "Infinity".toList
  | finite negative magnitude =>
    if magnitude.significand = 0 then ['0']
    else
      let unsigned := magnitude.shortestDecimal.write
      if negative then '-' :: unsigned else unsigned

/-- The text of a number as a string. -/
def toText (number : Binary64) : String :=
  String.ofList number.write

end Binary64

end Esoterica
