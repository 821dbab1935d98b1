import Esoterica.Binary64.Basic

/-!
# Arithmetic on binary64 numbers

Every operation is exact up to one rounding. Sums, remainders and comparisons of finite numbers work
on multiples of the same power of two, products and quotients on the significands. The comparison
leaves a number and NaN unordered. Conversions to integers cut off the fraction.
-/

namespace Esoterica

namespace Binary64

/-- An absolute value with a sign. -/
def signed (negative : Bool) (absolute : Nat) : Int :=
  if negative then -(absolute : Int) else absolute

/-- A sum that is zero is negative only when both operands are. -/
def add : Binary64 → Binary64 → Binary64
  | nan, _ | _, nan => nan
  | infinite left, infinite right => if left == right then infinite left else nan
  | infinite negative, finite _ _ | finite _ _, infinite negative => infinite negative
  | finite leftNegative left, finite rightNegative right =>
    let base := min left.exponent right.exponent
    let sum :=
      signed leftNegative (left.multiples base) + signed rightNegative (right.multiples base)
    if sum = 0 then finite (leftNegative && rightNegative) .zero
    else round (decide (sum < 0)) base sum.natAbs 1

def sub (left right : Binary64) : Binary64 :=
  add left (neg right)

def mul : Binary64 → Binary64 → Binary64
  | nan, _ | _, nan => nan
  | infinite left, infinite right => infinite (left ^^ right)
  | infinite left, finite right magnitude | finite left magnitude, infinite right =>
    if magnitude.significand = 0 then nan else infinite (left ^^ right)
  | finite leftNegative left, finite rightNegative right =>
    let exponent := left.exponent + right.exponent
    round (leftNegative ^^ rightNegative) (exponent - unitExponent)
      (left.significand * right.significand) (1 <<< (unitExponent - exponent))

def div : Binary64 → Binary64 → Binary64
  | nan, _ | _, nan | infinite _, infinite _ => nan
  | infinite left, finite right _ => infinite (left ^^ right)
  | finite left _, infinite right => finite (left ^^ right) .zero
  | finite leftNegative left, finite rightNegative right =>
    if right.significand = 0 then
      if left.significand = 0 then nan else infinite (leftNegative ^^ rightNegative)
    else
      let exponent := left.exponent + unitExponent
      round (leftNegative ^^ rightNegative) (exponent - right.exponent)
        left.significand (right.significand <<< (right.exponent - exponent))

/-- The remainder of the division that drops the quotient's fraction; it has the dividend's sign. -/
def rem : Binary64 → Binary64 → Binary64
  | nan, _ | _, nan | infinite _, _ => nan
  | finite negative magnitude, infinite _ => finite negative magnitude
  | finite negative left, finite _ right =>
    let base := min left.exponent right.exponent
    if right.significand = 0 then nan
    else round negative base (left.multiples base % right.multiples base) 1

instance : Add Binary64 where
  add := add

instance : Sub Binary64 where
  sub := sub

instance : Mul Binary64 where
  mul := mul

instance : Div Binary64 where
  div := div

instance : Mod Binary64 where
  mod := rem

/-- Applies a function to the whole part of a finite number and keeps the sign. -/
def mapWhole (f : Bool → Magnitude → Nat) : Binary64 → Binary64
  | finite negative magnitude => round negative unitExponent (f negative magnitude) 1
  | other => other

/-- The whole number toward zero. -/
def trunc : Binary64 → Binary64 :=
  mapWhole fun _ magnitude => magnitude.whole

/-- The greatest whole number that is not above. -/
def floor : Binary64 → Binary64 :=
  mapWhole fun negative magnitude =>
    if negative && !magnitude.isWhole then magnitude.whole + 1 else magnitude.whole

/-- The least whole number that is not below. -/
def ceil : Binary64 → Binary64 :=
  mapWhole fun negative magnitude =>
    if !negative && !magnitude.isWhole then magnitude.whole + 1 else magnitude.whole

/-- The order of two numbers, or nothing when one of them is NaN. The two zeros are equal. -/
def compare? : Binary64 → Binary64 → Option Ordering
  | nan, _ | _, nan => none
  | infinite true, infinite true | infinite false, infinite false => some .eq
  | infinite true, _ | _, infinite false => some .lt
  | infinite false, _ | _, infinite true => some .gt
  | finite leftNegative left, finite rightNegative right =>
    let base := min left.exponent right.exponent
    some (compare (signed leftNegative (left.multiples base))
      (signed rightNegative (right.multiples base)))

/-- Whether the left number is below the right one. -/
def lt (left right : Binary64) : Bool :=
  compare? left right == some .lt

/-- Whether the left number is not above the right one. -/
def le (left right : Binary64) : Bool :=
  compare? left right == some .lt || compare? left right == some .eq

/-- The whole part of a finite number; the other numbers give zero. -/
def toInt : Binary64 → Int
  | finite negative magnitude => signed negative magnitude.whole
  | nan | infinite _ => 0

/-- The whole part of a number as an integer of the range `low..high`; NaN gives zero. -/
def toIntClamped (low high : Int) (number : Binary64) : Int :=
  match number with
  | nan => 0
  | infinite negative => if negative then low else high
  | finite _ _ => max low (min high number.toInt)

/-- The whole part as an unsigned 64-bit integer, with what is out of range brought to its ends. -/
def toUnsigned (number : Binary64) : Nat :=
  (toIntClamped 0 (UInt64.size - 1) number).toNat

/-- The whole part as a signed 64-bit integer, with what is out of range brought to its ends. -/
def toSigned (number : Binary64) : Int :=
  toIntClamped (-0x8000000000000000) 0x7FFFFFFFFFFFFFFF number

end Binary64

end Esoterica
