/-!
# Binary64 numbers

The numbers of the stack language are IEEE 754 binary64 numbers. They are kept here as exact
integers: every finite one is a whole number of *units* of `2 ^ (-1074)`, the smallest positive
number, and has at most 53 significant bits. An operation computes its exact result as a quotient
of natural numbers and rounds it once, to the nearest representable number and, half way between
two of them, to the one with an even significand.
-/

namespace Esoterica

/-- The number of significant bits. -/
abbrev precision : Nat :=
  53

/-- The unit is `2 ^ (-unitExponent)`. -/
abbrev unitExponent : Nat :=
  1074

/--
The magnitude of a finite number: `significand * 2 ^ exponent` units. The significand fills all its
53 bits unless the exponent is already the smallest, so each magnitude has one representation.
-/
structure Magnitude where
  significand : Nat
  exponent : Nat
  significand_lt : significand < Nat.pow 2 precision
  exponent_le : exponent ≤ 2045
  normal : exponent = 0 ∨ Nat.pow 2 (precision - 1) ≤ significand
deriving DecidableEq

/-- A binary64 number. Equality is that of representations: the two zeros differ. -/
inductive Binary64 where
  | nan
  | infinite (negative : Bool)
  | finite (negative : Bool) (magnitude : Magnitude)
deriving DecidableEq

/-- The natural number nearest to `numerator / denominator`; half way, the even neighbour. -/
def nearestQuotient (numerator denominator : Nat) : Nat :=
  let quotient := numerator / denominator
  let twice := 2 * (numerator % denominator)
  if twice < denominator then quotient
  else if denominator < twice then quotient + 1
  else quotient + quotient % 2

theorem div_le_nearestQuotient (numerator denominator : Nat) :
    numerator / denominator ≤ nearestQuotient numerator denominator := by
  unfold nearestQuotient
  grind

namespace Magnitude

def zero : Magnitude where
  significand := 0
  exponent := 0
  significand_lt := by decide
  exponent_le := by decide
  normal := .inl rfl

/-- The magnitude in units. -/
def units (magnitude : Magnitude) : Nat :=
  magnitude.significand <<< magnitude.exponent

/-- The magnitude in multiples of `2 ^ base` units, where the base is at most the exponent. -/
def multiples (magnitude : Magnitude) (base : Nat) : Nat :=
  magnitude.significand <<< (magnitude.exponent - base)

/-- How far a quotient with this whole part has to be shifted down to 53 significant bits. -/
def exponentOf (quotient : Nat) : Nat :=
  quotient.log2 - (precision - 1)

/-- How far a numerator can be shifted up, at most by `base`, to give a quotient of 53 bits. -/
def liftOf (base numerator denominator : Nat) : Nat :=
  min base (denominator.log2 + precision - numerator.log2)

theorem le_nearestQuotient_of_exponentOf {numerator denominator : Nat}
    (positive : exponentOf (numerator / denominator) ≠ 0) :
    Nat.pow 2 (precision - 1) ≤
      nearestQuotient numerator (denominator <<< exponentOf (numerator / denominator)) := by
  refine Nat.le_trans ?_ (div_le_nearestQuotient _ _)
  rw [Nat.shiftLeft_eq, ← Nat.div_div_eq_div_mul]
  generalize numerator / denominator = quotient at positive ⊢
  have nonzero : quotient ≠ 0 := by
    intro isZero
    simp [exponentOf, isZero] at positive
  have bits : quotient.log2 = precision - 1 + exponentOf quotient := by
    unfold exponentOf at positive ⊢
    omega
  simp only [Nat.pow_eq]
  rw [Nat.le_div_iff_mul_le (Nat.two_pow_pos _), ← Nat.pow_add, ← bits]
  exact Nat.log2_self_le nonzero

theorem le_div_of_liftOf {base numerator denominator : Nat}
    (numerator_ne : numerator ≠ 0) (denominator_ne : denominator ≠ 0)
    (short : liftOf base numerator denominator ≠ base) :
    Nat.pow 2 (precision - 1) ≤
      (numerator <<< liftOf base numerator denominator) / denominator := by
  have enough : denominator.log2 + precision ≤
      numerator.log2 + liftOf base numerator denominator := by
    unfold liftOf at short ⊢
    omega
  generalize liftOf base numerator denominator = lift at enough ⊢
  simp only [Nat.pow_eq]
  rw [Nat.le_div_iff_mul_le (Nat.pos_of_ne_zero denominator_ne), Nat.shiftLeft_eq]
  calc 2 ^ (precision - 1) * denominator
      ≤ 2 ^ (precision - 1) * 2 ^ (denominator.log2 + 1) :=
        Nat.mul_le_mul_left _ (Nat.le_of_lt Nat.lt_log2_self)
    _ = 2 ^ (denominator.log2 + precision) := by
        rw [← Nat.pow_add]
        congr 1
        unfold precision
        omega
    _ ≤ 2 ^ (numerator.log2 + lift) := Nat.pow_le_pow_right (by decide) enough
    _ = 2 ^ numerator.log2 * 2 ^ lift := Nat.pow_add _ _ _
    _ ≤ numerator * 2 ^ lift := Nat.mul_le_mul_right _ (Nat.log2_self_le numerator_ne)

theorem le_nearestQuotient_of_liftOf {base numerator denominator : Nat}
    (numerator_ne : numerator ≠ 0) (denominator_ne : denominator ≠ 0)
    (short : liftOf base numerator denominator ≠ base) :
    Nat.pow 2 (precision - 1) ≤
      nearestQuotient (numerator <<< liftOf base numerator denominator) denominator :=
  Nat.le_trans (le_div_of_liftOf numerator_ne denominator_ne short) (div_le_nearestQuotient _ _)

/--
The magnitude nearest to `numerator / denominator * 2 ^ base` units, or nothing when that is above
the largest one. Rounding up may fill the 54th bit; then the significand is a power of two and is
halved. A fraction of or by zero counts as zero.
-/
def nearest? (base numerator denominator : Nat) : Option Magnitude :=
  if trivial : numerator = 0 ∨ denominator = 0 then some .zero
  else
    let lift := liftOf base numerator denominator
    let lifted := numerator <<< lift
    let excess := exponentOf (lifted / denominator)
    let exponent := base - lift + excess
    let significand := nearestQuotient lifted (denominator <<< excess)
    if fits : significand < Nat.pow 2 precision then
      if inRange : exponent ≤ 2045 then
        some {
          significand, exponent, significand_lt := fits, exponent_le := inRange
          normal := by
            have ⟨numerator_ne, denominator_ne⟩ := not_or.mp trivial
            by_cases noExcess : excess = 0
            · by_cases whole : lift = base
              · exact .inl (by omega)
              · refine .inr ?_
                show _ ≤ nearestQuotient lifted (denominator <<< excess)
                rw [noExcess, Nat.shiftLeft_zero]
                exact le_nearestQuotient_of_liftOf numerator_ne denominator_ne whole
            · exact .inr (le_nearestQuotient_of_exponentOf noExcess) }
      else
        none
    else if inRange : exponent + 1 ≤ 2045 then
      some {
        significand := Nat.pow 2 (precision - 1), exponent := exponent + 1
        significand_lt := by decide, exponent_le := inRange, normal := .inr (Nat.le_refl _) }
    else
      none

/-- The part of the magnitude before the point. -/
def whole (magnitude : Magnitude) : Nat :=
  magnitude.significand <<< (magnitude.exponent - unitExponent) >>>
    (unitExponent - magnitude.exponent)

/-- Whether the magnitude has nothing after the point. -/
def isWhole (magnitude : Magnitude) : Bool :=
  magnitude.significand % 1 <<< (unitExponent - magnitude.exponent) == 0

end Magnitude

namespace Binary64

/-- The number nearest to `numerator / denominator * 2 ^ base` units, with the given sign. -/
def round (negative : Bool) (base numerator denominator : Nat) : Binary64 :=
  match Magnitude.nearest? base numerator denominator with
  | some magnitude => finite negative magnitude
  | none => infinite negative

/-- The number nearest to a natural number. -/
def ofNat (n : Nat) : Binary64 :=
  round false unitExponent n 1

instance (n : Nat) : OfNat Binary64 n where
  ofNat := ofNat n

def isNaN : Binary64 → Bool
  | nan => true
  | _ => false

def isFinite : Binary64 → Bool
  | finite _ _ => true
  | _ => false

/-- Whether the number is one of the two zeros. -/
def isZero : Binary64 → Bool
  | finite _ magnitude => magnitude.significand == 0
  | _ => false

def neg : Binary64 → Binary64
  | nan => nan
  | infinite negative => infinite !negative
  | finite negative magnitude => finite (!negative) magnitude

instance : Neg Binary64 where
  neg := neg

def abs : Binary64 → Binary64
  | nan => nan
  | infinite _ => infinite false
  | finite _ magnitude => finite false magnitude

end Binary64

end Esoterica
