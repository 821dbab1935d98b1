import Esoterica.Binary64.Arithmetic

/-!
# Rounding

Rounding keeps order: what is not below a whole number of at most 53 bits is not below it after
rounding. A number that is not too large stays finite.
-/

namespace Esoterica

namespace Magnitude

variable {base numerator denominator : Nat} {magnitude : Magnitude}

/-- Without the bits that are rounded off, a quotient has 53 bits at most. -/
theorem shiftRight_exponentOf_lt (quotient : Nat) :
    quotient >>> exponentOf quotient < Nat.pow 2 precision := by
  rw [Nat.shiftRight_eq_div_pow, Nat.div_lt_iff_lt_mul (Nat.two_pow_pos _)]
  have bits : quotient.log2 + 1 ≤ precision + exponentOf quotient := by
    unfold exponentOf precision
    omega
  calc quotient < 2 ^ (quotient.log2 + 1) := Nat.lt_log2_self
    _ ≤ 2 ^ (precision + exponentOf quotient) := Nat.pow_le_pow_right (by decide) bits
    _ = 2 ^ precision * 2 ^ exponentOf quotient := Nat.pow_add _ _ _

/-- Multiples that are not above a fraction are not above its quotient. -/
theorem le_div_of_shift {lift excess multiple : Nat} (lift_le : lift ≤ base)
    (positive : 0 < denominator)
    (below : (multiple <<< (base - lift + excess)) * denominator ≤ numerator <<< base) :
    multiple ≤ (numerator <<< lift) / (denominator <<< excess) := by
  simp only [Nat.shiftLeft_eq] at below ⊢
  rw [Nat.le_div_iff_mul_le (Nat.mul_pos positive (Nat.two_pow_pos _))]
  apply Nat.le_of_mul_le_mul_right _ (Nat.two_pow_pos (base - lift))
  calc multiple * (denominator * 2 ^ excess) * 2 ^ (base - lift)
      = multiple * 2 ^ (base - lift + excess) * denominator := by
        rw [Nat.pow_add]
        ac_rfl
    _ ≤ numerator * 2 ^ base := below
    _ = numerator * 2 ^ lift * 2 ^ (base - lift) := by
        rw [Nat.mul_assoc, ← Nat.pow_add, Nat.add_sub_cancel' lift_le]

/-- Rounding keeps the order to the multiples of the last bit. -/
theorem le_significand_of_nearest? {multiple : Nat} (positive : 0 < denominator)
    (rounds : nearest? base numerator denominator = some magnitude)
    (below : (multiple <<< magnitude.exponent) * denominator ≤ numerator <<< base) :
    multiple ≤ magnitude.significand := by
  have lift_le : liftOf base numerator denominator ≤ base := Nat.min_le_left _ _
  unfold nearest? at rounds
  split at rounds
  case isTrue isZero =>
    cases rounds
    have none : numerator = 0 := isZero.resolve_right (Nat.ne_of_gt positive)
    have product : multiple * denominator ≤ 0 := by
      simpa [none, zero] using below
    rcases Nat.mul_eq_zero.mp (Nat.le_zero.mp product) with isZero | isZero
    · exact Nat.le_of_eq isZero
    · exact absurd isZero (Nat.ne_of_gt positive)
  case isFalse =>
    dsimp only at rounds
    split at rounds
    · split at rounds
      · cases rounds
        exact Nat.le_trans (le_div_of_shift lift_le positive below) (div_le_nearestQuotient _ _)
      · cases rounds
    · split at rounds
      · cases rounds
        -- The significand was carried into a 54th bit, so twice the multiple has at most 53.
        have twice : (2 * multiple) <<< (base - liftOf base numerator denominator +
            exponentOf ((numerator <<< liftOf base numerator denominator) / denominator)) *
            denominator ≤ numerator <<< base := by
          rw [Nat.mul_comm 2 multiple, ← Nat.pow_one 2, ← Nat.shiftLeft_eq, ← Nat.shiftLeft_add,
            Nat.add_comm 1]
          exact below
        have quotient := le_div_of_shift lift_le positive twice
        rw [Nat.shiftLeft_eq denominator, ← Nat.div_div_eq_div_mul,
          ← Nat.shiftRight_eq_div_pow] at quotient
        have bounded := Nat.lt_of_le_of_lt quotient (shiftRight_exponentOf_lt _)
        change multiple ≤ Nat.pow 2 52
        change 2 * multiple < Nat.pow 2 53 at bounded
        simp only [Nat.pow_eq] at bounded ⊢
        omega
      · cases rounds

/-- Rounding keeps the order to whole numbers of at most 53 bits. -/
theorem le_whole_of_nearest? {whole : Nat} (small : whole ≤ Nat.pow 2 precision)
    (positive : 0 < denominator) (rounds : nearest? base numerator denominator = some magnitude)
    (below : (whole <<< unitExponent) * denominator ≤ numerator <<< base) :
    whole ≤ magnitude.whole := by
  unfold Magnitude.whole
  by_cases fine : magnitude.exponent ≤ unitExponent
  · have split : whole <<< unitExponent =
        (whole <<< (unitExponent - magnitude.exponent)) <<< magnitude.exponent := by
      rw [← Nat.shiftLeft_add, Nat.sub_add_cancel fine]
    rw [split] at below
    have bounded := le_significand_of_nearest? positive rounds below
    rw [Nat.sub_eq_zero_of_le fine, Nat.shiftLeft_zero, Nat.shiftRight_eq_div_pow,
      Nat.le_div_iff_mul_le (Nat.two_pow_pos _), ← Nat.shiftLeft_eq]
    exact bounded
  · have normal := magnitude.normal.resolve_left (by omega)
    have coarse : unitExponent - magnitude.exponent = 0 := by omega
    have one : 1 ≤ magnitude.exponent - unitExponent := by omega
    rw [coarse, Nat.shiftRight_zero, Nat.shiftLeft_eq]
    calc whole ≤ 2 ^ (precision - 1) * 2 ^ 1 := small
      _ ≤ magnitude.significand * 2 ^ (magnitude.exponent - unitExponent) :=
        Nat.mul_le_mul normal (Nat.pow_le_pow_right (by decide) one)

theorem log2_shiftLeft {n : Nat} (nonzero : n ≠ 0) (count : Nat) :
    (n <<< count).log2 = n.log2 + count := by
  rw [Nat.shiftLeft_eq]
  induction count with
  | zero => simp
  | succ count ih =>
      rw [Nat.pow_succ, ← Nat.mul_assoc, Nat.mul_comm _ 2, Nat.log2_two_mul, ih, Nat.add_assoc]
      exact Nat.mul_ne_zero nonzero (Nat.ne_of_gt (Nat.two_pow_pos count))

/-- What is not too large has a nearest magnitude. -/
theorem isSome_nearest? (inRange : base + (numerator.log2 - (precision - 1)) ≤ 2044) :
    (nearest? base numerator 1).isSome = true := by
  unfold nearest?
  split
  case isTrue => rfl
  case isFalse nontrivial =>
    have nonzero := (not_or.mp nontrivial).1
    have exponent_le : base - liftOf base numerator 1 +
        exponentOf ((numerator <<< liftOf base numerator 1) / 1) ≤ 2044 := by
      rw [Nat.div_one, exponentOf, log2_shiftLeft nonzero]
      have one : Nat.log2 1 = 0 := rfl
      unfold liftOf
      unfold precision at inRange ⊢
      omega
    dsimp only
    split
    · rw [dif_pos (by omega)]
      rfl
    · rw [dif_pos (by omega)]
      rfl

/-- What stands before the point is not above the magnitude. -/
theorem whole_shiftLeft_le (magnitude : Magnitude) :
    magnitude.whole <<< unitExponent ≤ magnitude.units := by
  unfold whole units
  by_cases fine : magnitude.exponent ≤ unitExponent
  · rw [Nat.sub_eq_zero_of_le fine, Nat.shiftLeft_zero, Nat.shiftRight_eq_div_pow]
    calc (magnitude.significand / 2 ^ (unitExponent - magnitude.exponent)) <<< unitExponent
        = magnitude.significand / 2 ^ (unitExponent - magnitude.exponent) *
            2 ^ (unitExponent - magnitude.exponent) * 2 ^ magnitude.exponent := by
          rw [Nat.shiftLeft_eq, Nat.mul_assoc, ← Nat.pow_add, Nat.sub_add_cancel fine]
      _ ≤ magnitude.significand * 2 ^ magnitude.exponent :=
          Nat.mul_le_mul_right _ (Nat.div_mul_le_self _ _)
      _ = magnitude.significand <<< magnitude.exponent := (Nat.shiftLeft_eq _ _).symm
  · have coarse : unitExponent - magnitude.exponent = 0 := by omega
    have same : magnitude.significand <<< (magnitude.exponent - unitExponent) <<< unitExponent =
        magnitude.significand <<< magnitude.exponent := by
      rw [← Nat.shiftLeft_add, Nat.sub_add_cancel (Nat.le_of_lt (Nat.lt_of_not_le fine))]
    rw [coarse, Nat.shiftRight_zero]
    exact Nat.le_of_eq same

/-- Fractions with binary points that are not below whole numbers have no smaller product. -/
theorem shiftLeft_mul_le {unit whole left right leftSignificand rightSignificand leftExponent
    rightExponent : Nat} (below : whole ≤ left * right)
    (leftBelow : left <<< unit ≤ leftSignificand <<< leftExponent)
    (rightBelow : right <<< unit ≤ rightSignificand <<< rightExponent) :
    (whole <<< unit) * (1 <<< (unit - (leftExponent + rightExponent))) ≤
      (leftSignificand * rightSignificand) <<< (leftExponent + rightExponent - unit) := by
  simp only [Nat.shiftLeft_eq, Nat.one_mul] at leftBelow rightBelow ⊢
  have shared : unit - (leftExponent + rightExponent) + min (leftExponent + rightExponent) unit =
      unit := by omega
  have own : leftExponent + rightExponent - unit + min (leftExponent + rightExponent) unit =
      leftExponent + rightExponent := by omega
  -- Both sides lack the factor by which the exponents overlap.
  apply Nat.le_of_mul_le_mul_right _ (Nat.two_pow_pos (min (leftExponent + rightExponent) unit))
  rw [Nat.mul_assoc, Nat.mul_assoc (leftSignificand * rightSignificand), ← Nat.pow_add,
    ← Nat.pow_add, shared, own]
  calc whole * 2 ^ unit * 2 ^ unit
      ≤ left * right * 2 ^ unit * 2 ^ unit :=
        Nat.mul_le_mul_right _ (Nat.mul_le_mul_right _ below)
    _ = (left * 2 ^ unit) * (right * 2 ^ unit) := by ac_rfl
    _ ≤ (leftSignificand * 2 ^ leftExponent) * (rightSignificand * 2 ^ rightExponent) :=
        Nat.mul_le_mul leftBelow rightBelow
    _ = leftSignificand * rightSignificand * 2 ^ (leftExponent + rightExponent) := by
        rw [Nat.pow_add]
        ac_rfl

end Magnitude

namespace Binary64

variable {base numerator denominator : Nat}

theorem isNaN_round (negative : Bool) (base numerator denominator : Nat) :
    (round negative base numerator denominator).isNaN = false := by
  unfold round
  split
  · rfl
  · rfl

theorem isFinite_neg (number : Binary64) : (-number).isFinite = number.isFinite := by
  cases number with
  | nan | infinite | finite => rfl

theorem isFinite_round (negative : Bool)
    (inRange : base + (numerator.log2 - (precision - 1)) ≤ 2044) :
    (round negative base numerator 1).isFinite = true := by
  rcases Option.isSome_iff_exists.mp (Magnitude.isSome_nearest? inRange) with ⟨magnitude, rounds⟩
  rw [round, rounds]
  rfl

theorem inRange_of_lt_size {n : Nat} (small : n < UInt64.size) :
    unitExponent + (n.log2 - (precision - 1)) ≤ 2044 := by
  unfold unitExponent precision
  by_cases isZero : n = 0
  · rw [isZero]
    decide
  · have bits : n.log2 < 64 := (Nat.log2_lt isZero).mpr small
    omega

/-- Every count of 64 bits has a finite number nearest to it. -/
theorem isFinite_ofNat {n : Nat} (small : n < UInt64.size) : (ofNat n).isFinite = true := by
  exact isFinite_round false (inRange_of_lt_size small)

theorem toUnsigned_finite (magnitude : Magnitude) :
    (finite false magnitude).toUnsigned = min (UInt64.size - 1) magnitude.whole := by
  unfold toUnsigned toIntClamped toInt signed
  simp only [Bool.false_eq_true, if_false]
  omega

theorem toUnsigned_negative (magnitude : Magnitude) : (finite true magnitude).toUnsigned = 0 := by
  unfold toUnsigned toIntClamped toInt signed
  simp only [if_true]
  omega

theorem le_toUnsigned_round {whole : Nat} (small : whole ≤ Nat.pow 2 precision)
    (positive : 0 < denominator)
    (below : (whole <<< unitExponent) * denominator ≤ numerator <<< base) :
    whole ≤ (round false base numerator denominator).toUnsigned := by
  have representable : Nat.pow 2 precision ≤ UInt64.size - 1 := by decide
  unfold round
  split
  case h_1 magnitude rounds =>
    rw [toUnsigned_finite]
    have bounded := Magnitude.le_whole_of_nearest? small positive rounds below
    omega
  case h_2 =>
    apply Nat.le_trans small
    decide

/-- A number is not below the count it stands for, as far as 53 bits go. -/
theorem exists_of_ofNat {n : Nat} (small : n < UInt64.size) :
    ∃ magnitude : Magnitude, ofNat n = finite false magnitude ∧
      min n (Nat.pow 2 precision) ≤ magnitude.whole := by
  rcases Option.isSome_iff_exists.mp (Magnitude.isSome_nearest? (inRange_of_lt_size small)) with
    ⟨magnitude, rounds⟩
  refine ⟨magnitude, ?_, ?_⟩
  · rw [ofNat, round, rounds]
  · apply Magnitude.le_whole_of_nearest? (Nat.min_le_right _ _) Nat.one_pos rounds
    rw [Nat.mul_one, Nat.shiftLeft_eq, Nat.shiftLeft_eq]
    exact Nat.mul_le_mul_right _ (Nat.min_le_left _ _)

/-- A product is not below the product of the parts before the point, as far as 53 bits go. -/
theorem le_toUnsigned_mul {left right : Magnitude} {whole : Nat}
    (small : whole ≤ Nat.pow 2 precision) (below : whole ≤ left.whole * right.whole) :
    whole ≤ (finite false left * finite false right).toUnsigned := by
  change whole ≤ (round false (left.exponent + right.exponent - unitExponent)
    (left.significand * right.significand)
    (1 <<< (unitExponent - (left.exponent + right.exponent)))).toUnsigned
  apply le_toUnsigned_round small
  · rw [Nat.one_shiftLeft]
    exact Nat.two_pow_pos _
  · exact Magnitude.shiftLeft_mul_le below left.whole_shiftLeft_le right.whole_shiftLeft_le

end Binary64

end Esoterica
