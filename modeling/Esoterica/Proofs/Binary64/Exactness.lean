import Esoterica.Binary64.Decimal
import Esoterica.Proofs.Binary64.Rounding

/-!
# Rounding depends on the value alone

The nearest magnitude is found from a numerator that is lifted only as far as needed, and decimals
with enormous exponents are decided without their powers of ten. Neither makes a difference: equal
values have the same nearest magnitude, however they are given as fractions or decimals, and a value
that is a magnitude is nearest to itself.
-/

namespace Esoterica

section quotients

variable {numerator denominator otherNumerator otherDenominator : Nat}

theorem nearestQuotient_mul_left {factor : Nat} (positive : 0 < factor)
    (numerator denominator : Nat) :
    nearestQuotient (factor * numerator) (factor * denominator) =
      nearestQuotient numerator denominator := by
  have twice : 2 * (factor * (numerator % denominator)) =
      factor * (2 * (numerator % denominator)) := Nat.mul_left_comm _ _ _
  simp only [nearestQuotient, Nat.mul_div_mul_left _ _ positive, Nat.mul_mod_mul_left, twice,
    Nat.mul_lt_mul_left positive]

/-- Equal fractions round to the same natural number. -/
theorem nearestQuotient_congr (positive : 0 < denominator) (otherPositive : 0 < otherDenominator)
    (same : numerator * otherDenominator = otherNumerator * denominator) :
    nearestQuotient numerator denominator = nearestQuotient otherNumerator otherDenominator := by
  rw [← nearestQuotient_mul_left otherPositive numerator,
    ← nearestQuotient_mul_left positive otherNumerator, Nat.mul_comm otherDenominator numerator,
    Nat.mul_comm denominator otherNumerator, same, Nat.mul_comm denominator]

theorem div_congr (positive : 0 < denominator) (otherPositive : 0 < otherDenominator)
    (same : numerator * otherDenominator = otherNumerator * denominator) :
    numerator / denominator = otherNumerator / otherDenominator := by
  rw [← Nat.mul_div_mul_right numerator denominator otherPositive, same,
    Nat.mul_comm denominator, Nat.mul_div_mul_right _ _ positive]

/-- A whole number rounds to itself. -/
theorem nearestQuotient_mul_self (positive : 0 < denominator) (quotient : Nat) :
    nearestQuotient (quotient * denominator) denominator = quotient := by
  simp [nearestQuotient, Nat.mul_div_cancel _ positive, positive]

/-- What is below a half rounds to zero. -/
theorem nearestQuotient_of_small (small : 2 * numerator < denominator) :
    nearestQuotient numerator denominator = 0 := by
  have below : numerator < denominator := by omega
  simp [nearestQuotient, Nat.div_eq_of_lt below, Nat.mod_eq_of_lt below, small]

/-- The bits of a quotient that is not zero grow with the shift of the numerator. -/
theorem log2_shiftLeft_div (nonzero : numerator / denominator ≠ 0) (count : Nat) :
    ((numerator <<< count) / denominator).log2 = (numerator / denominator).log2 + count := by
  have back : (numerator <<< count) / denominator / 2 ^ count = numerator / denominator := by
    rw [Nat.shiftLeft_eq, Nat.div_div_eq_div_mul,
      Nat.mul_div_mul_right _ _ (Nat.two_pow_pos count)]
  generalize numerator / denominator = quotient at nonzero back ⊢
  generalize (numerator <<< count) / denominator = shifted at back ⊢
  have lower : 2 ^ (quotient.log2 + count) ≤ shifted := by
    rw [Nat.pow_add, ← Nat.le_div_iff_mul_le (Nat.two_pow_pos count), back]
    exact Nat.log2_self_le nonzero
  have upper : shifted < 2 ^ (quotient.log2 + count + 1) := by
    rw [Nat.add_right_comm, Nat.pow_add, ← Nat.div_lt_iff_lt_mul (Nat.two_pow_pos count), back]
    exact Nat.lt_log2_self
  have shifted_ne : shifted ≠ 0 := Nat.ne_of_gt (Nat.lt_of_lt_of_le (Nat.two_pow_pos _) lower)
  exact (Nat.log2_eq_iff shifted_ne).mpr ⟨lower, upper⟩

end quotients

namespace Magnitude

variable {base numerator denominator : Nat}

/-- The two numbers that make a magnitude. -/
def parts (magnitude : Magnitude) : Nat × Nat :=
  (magnitude.significand, magnitude.exponent)

theorem parts_injective {magnitude other : Magnitude} (same : magnitude.parts = other.parts) :
    magnitude = other := by
  cases magnitude
  cases other
  cases same
  rfl

/-- The parts after rounding, where a 54th bit is carried into the exponent. -/
def carry (significand exponent : Nat) : Nat × Nat :=
  if significand < Nat.pow 2 precision then (significand, exponent)
  else (Nat.pow 2 (precision - 1), exponent + 1)

/-- The parts of the magnitude nearest to a fraction of units. -/
def nearestParts (numerator denominator : Nat) : Nat × Nat :=
  let exponent := exponentOf (numerator / denominator)
  carry (nearestQuotient numerator (denominator <<< exponent)) exponent

/-- Lifting only as far as needed leaves the exponent as it is. -/
theorem lifted_exponentOf (numerator_ne : numerator ≠ 0) (denominator_ne : denominator ≠ 0) :
    base - liftOf base numerator denominator +
        exponentOf ((numerator <<< liftOf base numerator denominator) / denominator) =
      exponentOf ((numerator <<< base) / denominator) := by
  by_cases whole : liftOf base numerator denominator = base
  · rw [whole, Nat.sub_self, Nat.zero_add]
  · -- The lift ends early only where the quotient has 53 bits already, so the rest of it shifts
    -- bits that are cut off again.
    have enough := le_div_of_liftOf numerator_ne denominator_ne whole
    have lift_le : liftOf base numerator denominator ≤ base := Nat.min_le_left _ _
    generalize liftOf base numerator denominator = lift at enough lift_le ⊢
    have nonzero : (numerator <<< lift) / denominator ≠ 0 :=
      Nat.ne_of_gt (Nat.lt_of_lt_of_le (Nat.two_pow_pos _) enough)
    have bits : precision - 1 ≤ ((numerator <<< lift) / denominator).log2 :=
      (Nat.le_log2 nonzero).mpr enough
    have all : numerator <<< base = (numerator <<< lift) <<< (base - lift) := by
      rw [← Nat.shiftLeft_add, Nat.add_sub_cancel' lift_le]
    rw [all, exponentOf, exponentOf, log2_shiftLeft_div nonzero]
    omega

/-- Nor does it change the significand. -/
theorem lifted_nearestQuotient (numerator excess : Nat) (denominator_ne : denominator ≠ 0)
    {lift : Nat} (lift_le : lift ≤ base) :
    nearestQuotient (numerator <<< lift) (denominator <<< excess) =
      nearestQuotient (numerator <<< base) (denominator <<< (base - lift + excess)) := by
  have positive (count : Nat) : 0 < denominator * 2 ^ count :=
    Nat.mul_pos (Nat.pos_of_ne_zero denominator_ne) (Nat.two_pow_pos count)
  have shifts : lift + (base - lift + excess) = base + excess := by omega
  simp only [Nat.shiftLeft_eq]
  apply nearestQuotient_congr (positive _) (positive _)
  rw [Nat.mul_mul_mul_comm, ← Nat.pow_add, shifts, Nat.pow_add, Nat.mul_mul_mul_comm]

/-- The nearest magnitude in terms of the whole numerator. -/
theorem map_parts_nearest? (numerator_ne : numerator ≠ 0) (denominator_ne : denominator ≠ 0) :
    (nearest? base numerator denominator).map parts =
      let nearest := nearestParts (numerator <<< base) denominator
      if nearest.2 ≤ 2045 then some nearest else none := by
  have lift_le : liftOf base numerator denominator ≤ base := Nat.min_le_left _ _
  have significand := lifted_nearestQuotient numerator
    (exponentOf ((numerator <<< liftOf base numerator denominator) / denominator)) denominator_ne
    lift_le
  unfold nearest? nearestParts
  rw [dif_neg (not_or.mpr ⟨numerator_ne, denominator_ne⟩),
    ← lifted_exponentOf numerator_ne denominator_ne]
  dsimp only
  rw [← significand]
  unfold carry
  split
  · split
    · rfl
    · rfl
  · split
    · rfl
    · rfl

/-- Equal values have the same nearest magnitude. -/
theorem nearest?_congr {otherBase otherNumerator otherDenominator : Nat}
    (denominator_ne : denominator ≠ 0) (otherDenominator_ne : otherDenominator ≠ 0)
    (same : (numerator <<< base) * otherDenominator =
      (otherNumerator <<< otherBase) * denominator) :
    nearest? base numerator denominator =
      nearest? otherBase otherNumerator otherDenominator := by
  have positive := Nat.pos_of_ne_zero denominator_ne
  have otherPositive := Nat.pos_of_ne_zero otherDenominator_ne
  have bothZero : numerator = 0 ↔ otherNumerator = 0 := by
    have zeros : (numerator <<< base) * otherDenominator = 0 ↔
        (otherNumerator <<< otherBase) * denominator = 0 := by rw [same]
    simpa [Nat.shiftLeft_eq, Nat.mul_eq_zero, denominator_ne, otherDenominator_ne] using zeros
  by_cases isZero : numerator = 0
  · rw [nearest?, dif_pos (.inl isZero), nearest?, dif_pos (.inl (bothZero.mp isZero))]
  · have nearest : nearestParts (numerator <<< base) denominator =
        nearestParts (otherNumerator <<< otherBase) otherDenominator := by
      unfold nearestParts
      rw [div_congr positive otherPositive same]
      generalize exponentOf ((otherNumerator <<< otherBase) / otherDenominator) = exponent
      have significand : nearestQuotient (numerator <<< base) (denominator <<< exponent) =
          nearestQuotient (otherNumerator <<< otherBase) (otherDenominator <<< exponent) := by
        rw [Nat.shiftLeft_eq denominator, Nat.shiftLeft_eq otherDenominator]
        apply nearestQuotient_congr (Nat.mul_pos positive (Nat.two_pow_pos _))
          (Nat.mul_pos otherPositive (Nat.two_pow_pos _))
        rw [← Nat.mul_assoc, same, Nat.mul_assoc]
      exact congrArg (carry · exponent) significand
    apply Option.map_inj_right (fun _ _ => parts_injective) |>.mp
    rw [map_parts_nearest? isZero denominator_ne,
      map_parts_nearest? (mt bothZero.mpr isZero) otherDenominator_ne, nearest]

/-- A magnitude has the exponent that its own units call for. -/
theorem exponentOf_units (magnitude : Magnitude) (nonzero : magnitude.significand ≠ 0) :
    exponentOf magnitude.units = magnitude.exponent := by
  have bits : magnitude.significand.log2 < precision :=
    (Nat.log2_lt nonzero).mpr magnitude.significand_lt
  rw [exponentOf, units, log2_shiftLeft nonzero]
  rcases magnitude.normal with least | filled
  · omega
  · have full : precision - 1 ≤ magnitude.significand.log2 := (Nat.le_log2 nonzero).mpr filled
    omega

theorem eq_zero_of_significand_eq_zero {magnitude : Magnitude}
    (isZero : magnitude.significand = 0) : magnitude = zero := by
  have least : magnitude.exponent = 0 := by
    refine magnitude.normal.resolve_right ?_
    rw [isZero]
    decide
  exact parts_injective (Prod.ext isZero least)

/-- What is a magnitude is nearest to itself. -/
theorem nearest?_eq_some {magnitude : Magnitude} (denominator_ne : denominator ≠ 0)
    (same : numerator <<< base = magnitude.units * denominator) :
    nearest? base numerator denominator = some magnitude := by
  have expanded : nearest? base numerator denominator =
      nearest? magnitude.exponent magnitude.significand 1 :=
    nearest?_congr denominator_ne Nat.one_ne_zero ((Nat.mul_one _).trans same)
  rw [expanded]
  by_cases isZero : magnitude.significand = 0
  · rw [nearest?, dif_pos (.inl isZero), eq_zero_of_significand_eq_zero isZero]
  · apply Option.map_inj_right (fun _ _ => parts_injective) |>.mp
    have nearest : nearestParts (magnitude.significand <<< magnitude.exponent) 1 =
        magnitude.parts := by
      have exponent := magnitude.exponentOf_units isZero
      unfold nearestParts
      rw [Nat.div_one]
      change carry (nearestQuotient magnitude.units (1 <<< exponentOf magnitude.units))
        (exponentOf magnitude.units) = _
      rw [exponent, units, Nat.one_shiftLeft, Nat.shiftLeft_eq,
        nearestQuotient_mul_self (Nat.two_pow_pos _), carry, if_pos magnitude.significand_lt]
      rfl
    rw [map_parts_nearest? isZero Nat.one_ne_zero, nearest]
    exact if_pos magnitude.exponent_le

/-- What is below half a unit is nearest to zero. -/
theorem nearest?_of_small (small : 2 * (numerator <<< base) < denominator) :
    nearest? base numerator denominator = some zero := by
  by_cases isZero : numerator = 0
  · rw [nearest?, dif_pos (.inl isZero)]
  · have denominator_ne : denominator ≠ 0 := by omega
    have noUnit : (numerator <<< base) / denominator = 0 := Nat.div_eq_of_lt (by omega)
    have nearest : nearestParts (numerator <<< base) denominator = zero.parts := by
      unfold nearestParts
      rw [noUnit]
      change carry (nearestQuotient (numerator <<< base) (denominator <<< 0)) 0 = _
      rw [Nat.shiftLeft_zero, nearestQuotient_of_small small]
      rfl
    apply Option.map_inj_right (fun _ _ => parts_injective) |>.mp
    rw [map_parts_nearest? isZero denominator_ne, nearest]
    rfl

/-- What has too many bits before the point is above every magnitude. -/
theorem nearest?_of_large {bits : Nat} (tooMany : 2045 + precision ≤ bits)
    (denominator_ne : denominator ≠ 0)
    (large : Nat.pow 2 bits * denominator ≤ numerator <<< base) :
    nearest? base numerator denominator = none := by
  have positive := Nat.pos_of_ne_zero denominator_ne
  have quotient : 2 ^ bits ≤ (numerator <<< base) / denominator :=
    (Nat.le_div_iff_mul_le positive).mpr large
  have quotient_ne : (numerator <<< base) / denominator ≠ 0 :=
    Nat.ne_of_gt (Nat.lt_of_lt_of_le (Nat.two_pow_pos bits) quotient)
  have numerator_ne : numerator ≠ 0 := by
    rintro rfl
    simp at quotient_ne
  have bits_le : bits ≤ ((numerator <<< base) / denominator).log2 :=
    (Nat.le_log2 quotient_ne).mpr quotient
  have beyond : ¬ (nearestParts (numerator <<< base) denominator).2 ≤ 2045 := by
    unfold nearestParts exponentOf carry
    unfold precision at tooMany ⊢
    dsimp only
    split
    · dsimp only
      omega
    · dsimp only
      omega
  apply Option.map_eq_none_iff.mp
  rw [map_parts_nearest? numerator_ne denominator_ne]
  exact if_neg beyond

end Magnitude

namespace Decimal

/-- The decimal as a fraction. -/
def numerator (decimal : Decimal) : Nat :=
  decimal.digits * Nat.pow 10 decimal.exponent.toNat

def denominator (decimal : Decimal) : Nat :=
  Nat.pow 10 (-decimal.exponent).toNat

theorem denominator_ne_zero (decimal : Decimal) : decimal.denominator ≠ 0 :=
  Nat.ne_of_gt (Nat.pow_pos (by decide))

theorem two_pow_lt (bits : Nat) : Nat.pow 2 bits < Nat.pow 10 (31 * bits / 100 + 1) := by
  simp only [Nat.pow_eq]
  -- The hundredth powers are compared, where no part of the exponent is cut off.
  rw [← Nat.pow_lt_pow_iff_left (n := 100) (by decide)]
  calc (2 ^ bits) ^ 100 = (2 ^ 100) ^ bits := Nat.pow_right_comm _ _ _
    _ ≤ (10 ^ 31) ^ bits := Nat.pow_le_pow_left (by decide) bits
    _ = 10 ^ (31 * bits) := (Nat.pow_mul _ _ _).symm
    _ < 10 ^ ((31 * bits / 100 + 1) * 100) := Nat.pow_lt_pow_right (by decide) (by omega)
    _ = (10 ^ (31 * bits / 100 + 1)) ^ 100 := Nat.pow_mul _ _ _

theorem ten_pow_le (bits : Nat) : Nat.pow 10 (3 * bits / 10) ≤ Nat.pow 2 bits := by
  simp only [Nat.pow_eq]
  rw [← Nat.pow_le_pow_iff_left (n := 10) (by decide)]
  calc (10 ^ (3 * bits / 10)) ^ 10 = 10 ^ (3 * bits / 10 * 10) := (Nat.pow_mul _ _ _).symm
    _ ≤ 10 ^ (3 * bits) := Nat.pow_le_pow_right (by decide) (by omega)
    _ = (10 ^ 3) ^ bits := Nat.pow_mul _ _ _
    _ ≤ (2 ^ 10) ^ bits := Nat.pow_le_pow_left (by decide) bits
    _ = (2 ^ bits) ^ 10 := Nat.pow_right_comm _ _ _

variable {decimal : Decimal}

/-- A decimal of a low order is below half a unit. -/
theorem nearest?_of_upperOrder {unit low : Nat} (half : Nat.pow 2 (unit + 1) ≤ Nat.pow 10 low)
    (below : decimal.upperOrder ≤ -low) :
    Magnitude.nearest? unit decimal.numerator decimal.denominator = some .zero := by
  rcases decimal with ⟨digits, exponent⟩
  unfold upperOrder at below
  dsimp only at below
  have digits_lt : digits < 10 ^ (31 * (digits.log2 + 1) / 100 + 1) :=
    Nat.lt_trans Nat.lt_log2_self (two_pow_lt _)
  generalize 31 * (digits.log2 + 1) / 100 + 1 = places at below digits_lt
  have noPower : exponent.toNat = 0 := by omega
  have enough : places + low ≤ (-exponent).toNat := by omega
  apply Magnitude.nearest?_of_small
  simp only [numerator, denominator, noPower, Nat.shiftLeft_eq, Nat.pow_eq, Nat.pow_zero,
    Nat.mul_one]
  calc 2 * (digits * 2 ^ unit) = digits * 2 ^ (unit + 1) := by
        rw [Nat.pow_succ]
        ac_rfl
    _ < 10 ^ places * 2 ^ (unit + 1) := Nat.mul_lt_mul_of_pos_right digits_lt (Nat.two_pow_pos _)
    _ ≤ 10 ^ places * 10 ^ low := Nat.mul_le_mul_left _ half
    _ = 10 ^ (places + low) := (Nat.pow_add _ _ _).symm
    _ ≤ 10 ^ (-exponent).toNat := Nat.pow_le_pow_right (by decide) enough

/-- A decimal of a high order is above every magnitude. -/
theorem nearest?_of_lowerOrder {unit bits high : Nat} (tooMany : 2045 + precision ≤ bits + unit)
    (many : Nat.pow 2 bits ≤ Nat.pow 10 high) (nonzero : decimal.digits ≠ 0)
    (above : high ≤ decimal.lowerOrder) :
    Magnitude.nearest? unit decimal.numerator decimal.denominator = none := by
  rcases decimal with ⟨digits, exponent⟩
  unfold lowerOrder at above
  dsimp only at above nonzero
  have le_digits : 10 ^ (3 * digits.log2 / 10) ≤ digits :=
    Nat.le_trans (ten_pow_le _) (Nat.log2_self_le nonzero)
  generalize 3 * digits.log2 / 10 = places at above le_digits
  have enough : high + (-exponent).toNat ≤ places + exponent.toNat := by omega
  apply Magnitude.nearest?_of_large tooMany (denominator_ne_zero _)
  simp only [numerator, denominator, Nat.shiftLeft_eq, Nat.pow_eq]
  calc 2 ^ (bits + unit) * 10 ^ (-exponent).toNat
      = 2 ^ bits * 10 ^ (-exponent).toNat * 2 ^ unit := by
        rw [Nat.pow_add, Nat.mul_right_comm]
    _ ≤ 10 ^ high * 10 ^ (-exponent).toNat * 2 ^ unit :=
        Nat.mul_le_mul_right _ (Nat.mul_le_mul_right _ many)
    _ = 10 ^ (high + (-exponent).toNat) * 2 ^ unit := by rw [Nat.pow_add]
    _ ≤ 10 ^ (places + exponent.toNat) * 2 ^ unit :=
        Nat.mul_le_mul_right _ (Nat.pow_le_pow_right (by decide) enough)
    _ = 10 ^ places * 10 ^ exponent.toNat * 2 ^ unit := by rw [Nat.pow_add]
    _ ≤ digits * 10 ^ exponent.toNat * 2 ^ unit :=
        Nat.mul_le_mul_right _ (Nat.mul_le_mul_right _ le_digits)

/-- Every decimal is read as the magnitude nearest to it. -/
theorem toMagnitude?_eq_nearest? (decimal : Decimal) :
    decimal.toMagnitude? =
      Magnitude.nearest? unitExponent decimal.numerator decimal.denominator := by
  unfold toMagnitude?
  split
  case isTrue low =>
    rcases low with isZero | low
    · have noValue : decimal.numerator = 0 := by rw [numerator, isZero, Nat.zero_mul]
      rw [Magnitude.nearest?, dif_pos (.inl noValue)]
    · have half : Nat.pow 2 (unitExponent + 1) ≤ Nat.pow 10 330 := by decide +kernel
      exact (nearest?_of_upperOrder half low).symm
  case isFalse notLow =>
    split
    case isTrue high =>
      have many : Nat.pow 2 1024 ≤ Nat.pow 10 310 := by decide +kernel
      exact (nearest?_of_lowerOrder (by decide) many (mt .inl notLow) high).symm
    case isFalse =>
      rcases decimal with ⟨digits, power | power⟩
      · have whole : denominator ⟨digits, .ofNat power⟩ = 1 := by
          have noPlaces : (-(power : Int)).toNat = 0 := by omega
          exact congrArg (Nat.pow 10) noPlaces
        rw [whole]
        rfl
      · exact congrArg (Magnitude.nearest? unitExponent · _) (Nat.mul_one digits).symm

theorem nearest?_mul_pow (unit digits count : Nat) (exponent : Int) :
    Magnitude.nearest? unit (numerator ⟨digits * Nat.pow 10 count, exponent⟩)
        (denominator ⟨digits * Nat.pow 10 count, exponent⟩) =
      Magnitude.nearest? unit (numerator ⟨digits, exponent + count⟩)
        (denominator ⟨digits, exponent + count⟩) := by
  apply Magnitude.nearest?_congr (denominator_ne_zero _) (denominator_ne_zero _)
  simp only [numerator, denominator, Nat.shiftLeft_eq, Nat.pow_eq]
  have powers : count + exponent.toNat + (-(exponent + count)).toNat =
      (exponent + count).toNat + (-exponent).toNat := by omega
  calc digits * 10 ^ count * 10 ^ exponent.toNat * 2 ^ unit * 10 ^ (-(exponent + count)).toNat
      = digits * 2 ^ unit * 10 ^ (count + exponent.toNat + (-(exponent + count)).toNat) := by
        rw [Nat.pow_add, Nat.pow_add]
        ac_rfl
    _ = digits * 10 ^ (exponent + count).toNat * 2 ^ unit * 10 ^ (-exponent).toNat := by
        rw [powers, Nat.pow_add]
        ac_rfl

/-- Every decimal is read as the number nearest to it. -/
theorem toBinary64_eq_round (negative : Bool) (decimal : Decimal) :
    decimal.toBinary64 negative =
      Binary64.round negative unitExponent decimal.numerator decimal.denominator := by
  have same := toMagnitude?_eq_nearest? decimal
  cases nearest : decimal.toMagnitude? with
  | none | some =>
      rw [nearest] at same
      simp only [toBinary64, nearest, Binary64.round, ← same]

theorem toBinary64_eq_neg (negative : Bool) (decimal : Decimal) :
    decimal.toBinary64 negative =
      if negative then -decimal.toBinary64 false else decimal.toBinary64 false := by
  unfold toBinary64
  cases negative with
  | false => rfl
  | true => cases decimal.toMagnitude? <;> rfl

/-- Zeros at the end of the digits can be counted in the exponent. -/
theorem toMagnitude?_mul_pow (digits count : Nat) (exponent : Int) :
    toMagnitude? ⟨digits * Nat.pow 10 count, exponent⟩ =
      toMagnitude? ⟨digits, exponent + count⟩ := by
  rw [toMagnitude?_eq_nearest?, toMagnitude?_eq_nearest?, nearest?_mul_pow]

end Decimal

namespace Magnitude

theorem shiftLeft_mul_pow_five (units places : Nat) :
    (units * Nat.pow 5 places) <<< places = units * Nat.pow 10 places := by
  simp only [Nat.shiftLeft_eq, Nat.pow_eq]
  rw [Nat.mul_assoc, ← Nat.mul_pow]

/-- The exact value of a magnitude is read back. -/
theorem toMagnitude?_exactDecimal (magnitude : Magnitude) :
    magnitude.exactDecimal.toMagnitude? = some magnitude := by
  have whole : magnitude.exactDecimal.numerator =
      magnitude.units * Nat.pow 5 unitExponent := Nat.mul_one _
  have places : magnitude.exactDecimal.denominator = Nat.pow 10 unitExponent := rfl
  rw [Decimal.toMagnitude?_eq_nearest?]
  apply nearest?_eq_some (Decimal.denominator_ne_zero _)
  rw [whole, places]
  exact shiftLeft_mul_pow_five _ _

end Magnitude

end Esoterica
