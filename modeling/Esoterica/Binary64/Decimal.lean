import Esoterica.Binary64.Arithmetic
import Esoterica.Binary64.Digits

/-!
# Decimals

A decimal `digits * 10 ^ exponent` is read as the nearest binary64 number, and a magnitude is
written as the decimal with the fewest digits that is read back as this magnitude. Of two decimals
with that many digits the nearer one is taken and, half way, the greater.

That the written decimal reads back is not left to the search: it accepts nothing else, and if it
ran out of digits, which 17 never do, the exact value would stand in.
-/

namespace Esoterica

/-- The number `digits * 10 ^ exponent`. -/
structure Decimal where
  digits : Nat
  exponent : Int
deriving DecidableEq

namespace Decimal

/-- A decimal above zero is at least `10 ^ lowerOrder`, since `10 ^ 3` is less than `2 ^ 10`. -/
def lowerOrder (decimal : Decimal) : Int :=
  (3 * decimal.digits.log2 / 10 : Nat) + decimal.exponent

/-- A decimal is below `10 ^ upperOrder`, since `2 ^ 100` is less than `10 ^ 31`. -/
def upperOrder (decimal : Decimal) : Int :=
  (31 * (decimal.digits.log2 + 1) / 100 + 1 : Nat) + decimal.exponent

/--
The nearest magnitude, or nothing when the decimal is too large. A decimal of at least `10 ^ 310` is
above every magnitude and one below `10 ^ (-330)` is nearest to zero, so that no enormous power of
ten is computed for them.
-/
def toMagnitude? (decimal : Decimal) : Option Magnitude :=
  if decimal.digits = 0 ∨ decimal.upperOrder ≤ -330 then some .zero
  else if 310 ≤ decimal.lowerOrder then none
  else
    match decimal.exponent with
    | .ofNat power => Magnitude.nearest? unitExponent (decimal.digits * Nat.pow 10 power) 1
    | .negSucc power => Magnitude.nearest? unitExponent decimal.digits (Nat.pow 10 (power + 1))

/-- The nearest number with the given sign. -/
def toBinary64 (negative : Bool) (decimal : Decimal) : Binary64 :=
  match decimal.toMagnitude? with
  | some magnitude => .finite negative magnitude
  | none => .infinite negative

/-- The decimal without trailing zeros among its digits; `fuel` bounds how many are removed. -/
def dropZeros : (fuel : Nat) → Decimal → Decimal
  | 0, decimal => decimal
  | fuel + 1, decimal =>
    if decimal.digits ≠ 0 ∧ decimal.digits % 10 = 0 then
      dropZeros fuel ⟨decimal.digits / 10, decimal.exponent + 1⟩
    else
      decimal

end Decimal

namespace Magnitude

/-- The exact value of a magnitude as a decimal: a unit is `5 ^ 1074 * 10 ^ (-1074)`. -/
def exactDecimal (magnitude : Magnitude) : Decimal :=
  ⟨magnitude.units * Nat.pow 5 unitExponent, -unitExponent⟩

/-- The magnitude divided by `10 ^ exponent`, as numerator and denominator. -/
def scaled (magnitude : Magnitude) (exponent : Int) : Nat × Nat :=
  let numerator := magnitude.significand <<< (magnitude.exponent - unitExponent)
  let denominator := 1 <<< (unitExponent - magnitude.exponent)
  match exponent with
  | .ofNat power => (numerator, denominator * Nat.pow 10 power)
  | .negSucc power => (numerator * Nat.pow 10 (power + 1), denominator)

/-- The greatest power of ten that is not above a magnitude, by its exponent. -/
def order (magnitude : Magnitude) : Int :=
  let bits : Int := (magnitude.significand.log2 + magnitude.exponent : Nat) - unitExponent
  -- The logarithm of two is 0.30103 up to an error that is too small to matter here.
  let estimate := bits * 30103 / 100000
  let (numerator, denominator) := magnitude.scaled (estimate + 1)
  if denominator ≤ numerator then estimate + 1 else estimate

/--
The decimal with this exponent that reads back as the magnitude, if one of its two neighbours does;
the nearer one if both do.
-/
def decimalAt? (magnitude : Magnitude) (exponent : Int) : Option Decimal :=
  let (numerator, denominator) := magnitude.scaled exponent
  let below : Decimal := ⟨numerator / denominator, exponent⟩
  let above : Decimal := ⟨numerator / denominator + 1, exponent⟩
  let upward := denominator ≤ 2 * (numerator % denominator)
  let (near, far) := if upward then (above, below) else (below, above)
  if near.toMagnitude? = some magnitude then some near
  else if far.toMagnitude? = some magnitude then some far
  else none

/-- Tries grids from the coarsest, `10 ^ exponent`, downward. -/
def firstDecimal? (magnitude : Magnitude) (exponent : Int) : (tries : Nat) → Option Decimal
  | 0 => none
  | tries + 1 =>
    match magnitude.decimalAt? exponent with
    | some decimal => some decimal
    | none => firstDecimal? magnitude (exponent - 1) tries

/-- The shortest decimal that reads back as a magnitude above zero. -/
def shortestDecimal (magnitude : Magnitude) : Decimal :=
  match magnitude.firstDecimal? magnitude.order 17 with
  | some decimal => decimal.dropZeros 17
  | none => magnitude.exactDecimal

end Magnitude

end Esoterica
