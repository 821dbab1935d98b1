import Esoterica.Proofs.Binary64.Exactness

/-!
# Whole numbers are exact

Whole numbers of at most 53 bits are binary64 numbers, so that nothing is lost when texts are
counted and when counts are subtracted. Here sums and comparisons of finite numbers are brought back
to those of integers, by counting both numbers in units.
-/

namespace Esoterica

namespace Magnitude

variable {magnitude : Magnitude} {n : Nat}

/-- The part before the point is what is left without the bits of the fraction. -/
theorem whole_eq (magnitude : Magnitude) :
    magnitude.whole = magnitude.units >>> unitExponent := by
  unfold whole units
  generalize unitExponent = unit
  generalize magnitude.exponent = exponent
  rcases Nat.le_total exponent unit with fine | coarse
  · obtain ⟨rest, rfl⟩ := Nat.exists_eq_add_of_le fine
    rw [Nat.sub_eq_zero_of_le fine, Nat.shiftLeft_zero, Nat.add_sub_cancel_left,
      Nat.shiftRight_add, Nat.shiftLeft_shiftRight]
  · obtain ⟨rest, rfl⟩ := Nat.exists_eq_add_of_le' coarse
    rw [Nat.sub_eq_zero_of_le coarse, Nat.shiftRight_zero, Nat.add_sub_cancel,
      Nat.shiftLeft_add, Nat.shiftLeft_shiftRight]

theorem whole_of_units (units : magnitude.units = n <<< unitExponent) : magnitude.whole = n := by
  rw [whole_eq, units, Nat.shiftLeft_shiftRight]

theorem le_whole_iff : n ≤ magnitude.whole ↔ n <<< unitExponent ≤ magnitude.units := by
  rw [whole_eq, Nat.shiftRight_eq_div_pow, Nat.le_div_iff_mul_le (Nat.two_pow_pos _),
    Nat.shiftLeft_eq]

/-- Without a fraction, a magnitude is the part before its point. -/
theorem units_of_isWhole (isWhole : magnitude.isWhole = true) :
    magnitude.units = magnitude.whole <<< unitExponent := by
  have divides := beq_iff_eq.mp isWhole
  unfold whole units
  generalize unitExponent = unit at divides ⊢
  generalize magnitude.exponent = exponent at divides ⊢
  rcases Nat.le_total exponent unit with fine | coarse
  · obtain ⟨rest, rfl⟩ := Nat.exists_eq_add_of_le' fine
    rw [Nat.add_sub_cancel, Nat.one_shiftLeft] at divides
    rw [Nat.sub_eq_zero_of_le fine, Nat.shiftLeft_zero, Nat.add_sub_cancel, Nat.shiftLeft_add,
      Nat.shiftRight_eq_div_pow, Nat.shiftLeft_eq _ rest,
      Nat.div_mul_cancel (Nat.dvd_of_mod_eq_zero divides)]
  · rw [Nat.sub_eq_zero_of_le coarse, Nat.shiftRight_zero, ← Nat.shiftLeft_add,
      Nat.sub_add_cancel coarse]

theorem isWhole_of_units (units_eq : magnitude.units = n <<< unitExponent) :
    magnitude.isWhole = true := by
  unfold units at units_eq
  unfold isWhole
  generalize unitExponent = unit at units_eq ⊢
  generalize magnitude.exponent = exponent at units_eq ⊢
  rcases Nat.le_total exponent unit with fine | coarse
  · obtain ⟨rest, rfl⟩ := Nat.exists_eq_add_of_le' fine
    rw [Nat.shiftLeft_add, Nat.shiftLeft_eq, Nat.shiftLeft_eq _ exponent] at units_eq
    rw [Nat.eq_of_mul_eq_mul_right (Nat.two_pow_pos _) units_eq, Nat.add_sub_cancel,
      Nat.one_shiftLeft, Nat.shiftLeft_eq, Nat.mul_mod_left]
    rfl
  · rw [Nat.sub_eq_zero_of_le coarse, Nat.shiftLeft_zero, Nat.mod_one]
    rfl

theorem eq_zero_of_units_eq_zero (noUnits : magnitude.units = 0) : magnitude = zero := by
  rw [units, Nat.shiftLeft_eq, Nat.mul_eq_zero] at noUnits
  exact eq_zero_of_significand_eq_zero
    (noUnits.resolve_right (Nat.ne_of_gt (Nat.two_pow_pos _)))

/-- With a fraction, a magnitude has fewer than 53 bits before its point. -/
theorem whole_lt_of_isWhole (fraction : magnitude.isWhole = false) :
    magnitude.whole < Nat.pow 2 precision := by
  have below : magnitude.exponent < unitExponent := by
    rcases Nat.lt_or_ge magnitude.exponent unitExponent with fine | coarse
    · exact fine
    · rw [isWhole, Nat.sub_eq_zero_of_le coarse, Nat.shiftLeft_zero, Nat.mod_one] at fraction
      cases fraction
  rw [whole, Nat.sub_eq_zero_of_le (Nat.le_of_lt below), Nat.shiftLeft_zero]
  exact Nat.lt_of_le_of_lt (Nat.shiftRight_le _ _) magnitude.significand_lt

theorem shiftLeft_succ_inside (bits unit : Nat) :
    Nat.pow 2 bits <<< (unit + 1) = Nat.pow 2 (bits + 1) <<< unit := by
  simp only [Nat.shiftLeft_eq, Nat.pow_eq, ← Nat.pow_add]
  rw [Nat.add_right_comm, Nat.add_assoc]

/-- Every whole number of at most 53 bits is a magnitude. -/
theorem exists_units (small : n ≤ Nat.pow 2 precision) :
    ∃ magnitude : Magnitude, magnitude.units = n <<< unitExponent := by
  by_cases isZero : n = 0
  · exact ⟨zero, by rw [isZero, Nat.zero_shiftLeft]; rfl⟩
  -- The largest one has 54 bits, but the last of them is zero.
  rcases Nat.eq_or_lt_of_le small with rfl | small
  · refine ⟨⟨Nat.pow 2 (precision - 1), unitExponent + 1, by decide, by decide, .inr ?_⟩, ?_⟩
    · exact Nat.le_refl _
    · exact shiftLeft_succ_inside _ _
  · have bits : n.log2 < precision := (Nat.log2_lt isZero).mpr small
    obtain ⟨lift, lift_eq⟩ := Nat.exists_eq_add_of_le (Nat.le_sub_one_of_lt bits)
    have lower : Nat.pow 2 (precision - 1) ≤ n <<< lift := by
      rw [lift_eq, Nat.shiftLeft_eq]
      simp only [Nat.pow_eq]
      rw [Nat.pow_add]
      exact Nat.mul_le_mul_right _ (Nat.log2_self_le isZero)
    have upper : n <<< lift < Nat.pow 2 precision := by
      have all : precision = n.log2 + 1 + lift := by omega
      rw [all, Nat.shiftLeft_eq]
      simp only [Nat.pow_eq]
      rw [Nat.pow_add]
      exact Nat.mul_lt_mul_of_pos_right Nat.lt_log2_self (Nat.two_pow_pos _)
    have lift_le : lift ≤ unitExponent :=
      Nat.le_trans (show lift ≤ precision - 1 by omega) (by decide)
    have exponent_le : unitExponent - lift ≤ 2045 := Nat.le_trans (Nat.sub_le _ _) (by decide)
    refine ⟨⟨n <<< lift, unitExponent - lift, upper, exponent_le, .inr lower⟩, ?_⟩
    rw [units, ← Nat.shiftLeft_add, Nat.add_sub_cancel' lift_le]

/-- The magnitude rounded up to a whole number. -/
def ceiling (magnitude : Magnitude) : Nat :=
  if magnitude.isWhole then magnitude.whole else magnitude.whole + 1

theorem ceiling_of_units (units : magnitude.units = n <<< unitExponent) :
    magnitude.ceiling = n := by
  rw [ceiling, if_pos (isWhole_of_units units), whole_of_units units]

/-- A magnitude in units, found from its multiples of a smaller power of two. -/
theorem multiples_shiftLeft {base : Nat} (magnitude : Magnitude)
    (base_le : base ≤ magnitude.exponent) :
    magnitude.multiples base <<< base = magnitude.units := by
  rw [multiples, ← Nat.shiftLeft_add, Nat.sub_add_cancel base_le, units]

/-- A product with one, whatever power of two either factor is a multiple of. -/
theorem mul_shiftLeft_of_one {unit one significand oneExponent exponent : Nat}
    (isOne : one <<< oneExponent = 1 <<< unit) :
    (one * significand) <<< (oneExponent + exponent - unit) =
      significand <<< exponent * 1 <<< (unit - (oneExponent + exponent)) := by
  simp only [Nat.shiftLeft_eq, Nat.one_mul] at isOne ⊢
  rcases Nat.le_total unit (oneExponent + exponent) with coarse | fine
  · obtain ⟨rest, sum⟩ := Nat.exists_eq_add_of_le coarse
    apply Nat.eq_of_mul_eq_mul_left (Nat.two_pow_pos unit)
    calc 2 ^ unit * (one * significand * 2 ^ (oneExponent + exponent - unit))
        = one * significand * 2 ^ (oneExponent + exponent) := by
          rw [sum, Nat.add_sub_cancel_left, Nat.pow_add, Nat.mul_left_comm]
      _ = one * 2 ^ oneExponent * (significand * 2 ^ exponent) := by
          rw [Nat.pow_add, Nat.mul_mul_mul_comm]
      _ = _ := by
          rw [isOne, Nat.sub_eq_zero_of_le coarse, Nat.pow_zero, Nat.mul_one]
  · obtain ⟨rest, sum⟩ := Nat.exists_eq_add_of_le fine
    have isPower : one = 2 ^ (exponent + rest) := by
      apply Nat.eq_of_mul_eq_mul_right (Nat.two_pow_pos oneExponent)
      rw [isOne, sum, ← Nat.pow_add, Nat.add_assoc, Nat.add_comm]
    rw [sum, Nat.sub_eq_zero_of_le (Nat.le_add_right _ _), Nat.add_sub_cancel_left, Nat.pow_zero,
      Nat.mul_one, isPower, Nat.pow_add, Nat.mul_comm, Nat.mul_assoc]

end Magnitude

namespace Binary64

variable {n : Nat} {magnitude : Magnitude}

theorem ofNat_of_units (units : magnitude.units = n <<< unitExponent) :
    ofNat n = finite false magnitude := by
  rw [ofNat, round, Magnitude.nearest?_eq_some Nat.one_ne_zero (by rw [units, Nat.mul_one])]

/-- Whole numbers of at most 53 bits are exact. -/
theorem exists_ofNat (small : n ≤ Nat.pow 2 precision) :
    ∃ magnitude : Magnitude, ofNat n = finite false magnitude ∧
      magnitude.units = n <<< unitExponent := by
  obtain ⟨magnitude, units⟩ := Magnitude.exists_units small
  exact ⟨magnitude, ofNat_of_units units, units⟩

theorem zero_eq : (0 : Binary64) = finite false .zero :=
  ofNat_of_units (n := 0) (by rw [Nat.zero_shiftLeft]; rfl)

/-! ### Products with one -/

/-- One with a sign, times a number, is the number with this sign. -/
theorem finite_one_mul {one : Magnitude} (isOne : one.units = 1 <<< unitExponent)
    (negative : Bool) (number : Binary64) :
    finite negative one * number = if negative then -number else number := by
  have nonzero : one.significand ≠ 0 := by
    intro isZero
    rw [Magnitude.units, isZero, Nat.zero_shiftLeft, Nat.one_shiftLeft] at isOne
    exact Nat.ne_of_lt (Nat.two_pow_pos _) isOne
  have flipped (sign : Bool) : (negative ^^ sign) = if negative then !sign else sign := by
    cases negative <;> simp
  cases number with
  | nan => cases negative <;> rfl
  | infinite sign =>
      change (if one.significand = 0 then nan else infinite (negative ^^ sign)) = _
      rw [if_neg nonzero, flipped]
      cases negative <;> rfl
  | finite sign magnitude =>
      let exponent := one.exponent + magnitude.exponent
      have nearest : Magnitude.nearest? (exponent - unitExponent)
          (one.significand * magnitude.significand) (1 <<< (unitExponent - exponent)) =
            some magnitude :=
        Magnitude.nearest?_eq_some (by simp [Nat.shiftLeft_eq])
          (Magnitude.mul_shiftLeft_of_one isOne)
      change round (negative ^^ sign) _ _ _ = _
      rw [round, nearest, flipped]
      cases negative <;> rfl

theorem one_mul (number : Binary64) : 1 * number = number := by
  obtain ⟨one, isFinite, isOne⟩ := exists_ofNat (show 1 ≤ Nat.pow 2 precision by decide)
  rw [show (1 : Binary64) = finite false one from isFinite]
  exact finite_one_mul isOne false number

theorem neg_one_mul (number : Binary64) : -1 * number = -number := by
  obtain ⟨one, isFinite, isOne⟩ := exists_ofNat (show 1 ≤ Nat.pow 2 precision by decide)
  rw [show (1 : Binary64) = finite false one from isFinite]
  exact finite_one_mul isOne true number

/-! ### Sums and comparisons in units -/

theorem signed_shiftLeft (negative : Bool) (absolute count : Nat) :
    signed negative (absolute <<< count) = signed negative absolute * (Nat.pow 2 count : Nat) := by
  rw [Nat.shiftLeft_eq]
  cases negative with
  | false => exact Int.natCast_mul _ _
  | true => exact (congrArg Neg.neg (Int.natCast_mul _ _)).trans (Int.neg_mul _ _).symm

/-- A number in units, found from its multiples of a smaller power of two. -/
theorem signed_units (negative : Bool) {base : Nat} (base_le : base ≤ magnitude.exponent) :
    signed negative magnitude.units =
      signed negative (magnitude.multiples base) * (Nat.pow 2 base : Nat) := by
  rw [← magnitude.multiples_shiftLeft base_le, signed_shiftLeft]

theorem signed_not (negative : Bool) (absolute : Nat) :
    signed (!negative) absolute = -signed negative absolute := by
  cases negative with
  | false => rfl
  | true => exact (Int.neg_neg _).symm

theorem signed_sub_shiftLeft {m : Nat} (le : m ≤ n) (unit : Nat) :
    signed false (n <<< unit) + signed true (m <<< unit) = ((n - m) <<< unit : Nat) := by
  have difference : signed false n + signed true m = (n - m : Nat) := by
    simp only [signed, Bool.false_eq_true, if_true, if_false]
    omega
  rw [signed_shiftLeft, signed_shiftLeft, ← Int.add_mul, difference, Nat.shiftLeft_eq,
    Int.natCast_mul]
  rfl

theorem compare_mul_right {left right factor : Int} (positive : 0 < factor) :
    compare (left * factor) (right * factor) = compare left right := by
  have less : left * factor < right * factor ↔ left < right := Int.mul_lt_mul_right positive
  have same : left * factor = right * factor ↔ left = right :=
    Int.mul_eq_mul_right_iff (Int.ne_of_gt positive)
  simp only [compare, compareOfLessAndEq, less, same]

/-- Finite numbers are compared as numbers of units. -/
theorem compare?_finite (leftNegative rightNegative : Bool) (left right : Magnitude) :
    compare? (finite leftNegative left) (finite rightNegative right) =
      some (compare (signed leftNegative left.units) (signed rightNegative right.units)) := by
  have positive : (0 : Int) < (Nat.pow 2 (min left.exponent right.exponent) : Nat) :=
    Int.natCast_pos.mpr (Nat.two_pow_pos _)
  rw [signed_units _ (Nat.min_le_left _ right.exponent),
    signed_units _ (Nat.min_le_right left.exponent _), compare_mul_right positive]
  rfl

theorem lt_finite_iff {leftNegative rightNegative : Bool} {left right : Magnitude} :
    (finite leftNegative left).lt (finite rightNegative right) = true ↔
      signed leftNegative left.units < signed rightNegative right.units := by
  rw [lt, compare?_finite, beq_iff_eq, Option.some_inj, Int.compare_eq_lt]

theorem le_finite_iff {leftNegative rightNegative : Bool} {left right : Magnitude} :
    (finite leftNegative left).le (finite rightNegative right) = true ↔
      signed leftNegative left.units ≤ signed rightNegative right.units := by
  rw [le, compare?_finite, Bool.or_eq_true, beq_iff_eq, beq_iff_eq, Option.some_inj,
    Option.some_inj, Int.compare_eq_lt, Int.compare_eq_eq]
  omega

theorem round_shiftLeft (negative : Bool) (base numerator : Nat) :
    round negative base numerator 1 = round negative 0 (numerator * Nat.pow 2 base) 1 := by
  have same : Magnitude.nearest? base numerator 1 =
      Magnitude.nearest? 0 (numerator * Nat.pow 2 base) 1 := by
    apply Magnitude.nearest?_congr Nat.one_ne_zero Nat.one_ne_zero
    rw [Nat.shiftLeft_eq, Nat.shiftLeft_zero]
    rfl
  rw [round, round, same]

/-- A sum of finite numbers is the number nearest to the sum in units. -/
theorem add_finite {leftNegative rightNegative : Bool} {left right : Magnitude} {sum : Int}
    (isSum : signed leftNegative left.units + signed rightNegative right.units = sum) :
    finite leftNegative left + finite rightNegative right =
      if sum = 0 then finite (leftNegative && rightNegative) .zero
      else round (decide (sum < 0)) 0 sum.natAbs 1 := by
  have positive : (0 : Int) < (Nat.pow 2 (min left.exponent right.exponent) : Nat) :=
    Int.natCast_pos.mpr (Nat.two_pow_pos _)
  rw [signed_units _ (Nat.min_le_left _ right.exponent),
    signed_units _ (Nat.min_le_right left.exponent _), ← Int.add_mul] at isSum
  change add _ _ = _
  unfold add
  dsimp only
  generalize min left.exponent right.exponent = base at positive isSum ⊢
  generalize signed leftNegative (left.multiples base) +
    signed rightNegative (right.multiples base) = multiple at isSum ⊢
  subst isSum
  have isZero : multiple * (Nat.pow 2 base : Nat) = 0 ↔ multiple = 0 := by
    rw [Int.mul_eq_zero]
    exact or_iff_left (Int.ne_of_gt positive)
  have isNegative : multiple * (Nat.pow 2 base : Nat) < 0 ↔ multiple < 0 :=
    ⟨fun below => Int.neg_of_mul_neg_left below positive,
      fun below => Int.mul_neg_of_neg_of_pos below positive⟩
  simp only [isZero, isNegative, Int.natAbs_mul, Int.natAbs_natCast, round_shiftLeft _ base]

/-- A sum that is a magnitude is exact. -/
theorem add_finite_of_units {leftNegative rightNegative : Bool} {left right magnitude : Magnitude}
    (isSum : signed leftNegative left.units + signed rightNegative right.units = magnitude.units)
    (notBoth : (leftNegative && rightNegative) = false) :
    finite leftNegative left + finite rightNegative right = finite false magnitude := by
  rw [add_finite isSum]
  split
  case isTrue isZero =>
    rw [notBoth, Magnitude.eq_zero_of_units_eq_zero (Int.ofNat.inj isZero)]
  case isFalse =>
    have notNegative : decide ((magnitude.units : Int) < 0) = false := by simp
    have nearest : Magnitude.nearest? 0 magnitude.units 1 = some magnitude :=
      Magnitude.nearest?_eq_some Nat.one_ne_zero (by rw [Nat.shiftLeft_zero, Nat.mul_one])
    rw [notNegative, Int.natAbs_natCast, round, nearest]

/-- The difference of whole numbers of at most 53 bits is exact, if it is not negative. -/
theorem ofNat_sub_ofNat {m : Nat} (small : n ≤ Nat.pow 2 precision) (le : m ≤ n) :
    ofNat n - ofNat m = ofNat (n - m) := by
  obtain ⟨left, isLeft, leftUnits⟩ := exists_ofNat small
  obtain ⟨right, isRight, rightUnits⟩ := exists_ofNat (Nat.le_trans le small)
  obtain ⟨rest, isRest, restUnits⟩ := exists_ofNat (Nat.le_trans (Nat.sub_le n m) small)
  have isSum : signed false left.units + signed true right.units = rest.units := by
    rw [leftUnits, rightUnits, restUnits]
    exact signed_sub_shiftLeft le unitExponent
  rw [isLeft, isRight, isRest]
  exact add_finite_of_units isSum rfl

/-- What is above a whole number of less than 53 bits is still above it after rounding. -/
theorem ofNat_lt_ofNat {m : Nat} (small : n < Nat.pow 2 precision) (above : n < m) :
    (ofNat n).lt (ofNat m) = true := by
  obtain ⟨magnitude, isNumber, units⟩ := exists_ofNat (Nat.le_of_lt small)
  rw [isNumber]
  cases nearest : Magnitude.nearest? unitExponent m 1 with
  | none =>
      rw [ofNat, round, nearest]
      rfl
  | some other =>
      have next : n + 1 ≤ other.whole := by
        apply Magnitude.le_whole_of_nearest? small Nat.one_pos nearest
        rw [Nat.mul_one, Nat.shiftLeft_eq, Nat.shiftLeft_eq]
        exact Nat.mul_le_mul_right _ above
      have more : magnitude.units < other.units := by
        apply Nat.lt_of_not_le
        intro notMore
        have tooLarge : n + 1 ≤ magnitude.whole :=
          Magnitude.le_whole_iff.mpr (Nat.le_trans (Magnitude.le_whole_iff.mp next) notMore)
        rw [Magnitude.whole_of_units units] at tooLarge
        omega
      rw [ofNat, round, nearest, lt_finite_iff]
      exact Int.ofNat_lt.mpr more

/-! ### Conversions to natural numbers -/

theorem toUnsigned_lt (number : Binary64) : number.toUnsigned < UInt64.size := by
  have size : UInt64.size = 0x10000000000000000 := rfl
  unfold toUnsigned toIntClamped
  cases number with
  | nan => decide
  | infinite negative =>
      cases negative with
      | false | true => decide
  | finite negative magnitude =>
      dsimp only
      omega

theorem pow_precision_le : Nat.pow 2 precision ≤ UInt64.size - 1 := by
  decide

theorem toUnsigned_ofNat (small : n ≤ Nat.pow 2 precision) : (ofNat n).toUnsigned = n := by
  have inRange := pow_precision_le
  obtain ⟨magnitude, isNumber, units⟩ := exists_ofNat small
  rw [isNumber, toUnsigned_finite, Magnitude.whole_of_units units]
  omega

theorem toUnsigned_ceil (magnitude : Magnitude) :
    (finite false magnitude).ceil.toUnsigned = min (UInt64.size - 1) magnitude.ceiling := by
  cases isWhole : magnitude.isWhole with
  | true =>
      have whole : (finite false magnitude).ceil = ofNat magnitude.whole := by
        simp only [ceil, mapWhole, isWhole, Bool.not_true, Bool.and_false, Bool.false_eq_true,
          if_false, ofNat]
      rw [whole, ofNat_of_units (Magnitude.units_of_isWhole isWhole), toUnsigned_finite,
        Magnitude.ceiling, if_pos isWhole]
  | false =>
      have small := Magnitude.whole_lt_of_isWhole isWhole
      have above : (finite false magnitude).ceil = ofNat (magnitude.whole + 1) := by
        simp only [ceil, mapWhole, isWhole, Bool.not_false, Bool.and_self, if_true, ofNat]
      have inRange := pow_precision_le
      rw [above, toUnsigned_ofNat small, Magnitude.ceiling, isWhole, if_neg Bool.false_ne_true]
      omega

end Binary64

end Esoterica
