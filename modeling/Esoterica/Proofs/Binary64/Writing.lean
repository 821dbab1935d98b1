import Esoterica.Binary64.Writing

/-!
# The length of written numbers

How many digits a shortest decimal has is not needed here. That a number is never written with more
than a few thousand characters follows from rough bounds for the digits and the exponent of every
decimal that the search for the shortest one can come to.
-/

namespace Esoterica

namespace Decimal

variable {decimal : Decimal} {size : Nat}

theorem length_digitChars_le {n : Nat} (positive : 0 < size) (small : n < Nat.pow 10 size) :
    (digitChars n).length ≤ size :=
  (Nat.length_toDigits_le_iff (by decide) positive).mpr small

theorem length_digitChars_le_succ (n : Nat) : (digitChars n).length ≤ n + 1 := by
  apply length_digitChars_le (Nat.succ_pos n)
  exact Nat.lt_trans (Nat.lt_succ_self n) (Nat.lt_pow_self (by decide))

/-- At most `size` digits, and an exponent that is not larger, whatever its sign. -/
structure Within (size : Nat) (decimal : Decimal) : Prop where
  digits_lt : decimal.digits < Nat.pow 10 size
  exponent_le : decimal.exponent.natAbs ≤ size

namespace Within

theorem mono {larger : Nat} (within : decimal.Within size) (le : size ≤ larger) :
    decimal.Within larger where
  digits_lt := Nat.lt_of_lt_of_le within.digits_lt (Nat.pow_le_pow_right (by decide) le)
  exponent_le := Nat.le_trans within.exponent_le le

theorem dropZeros (within : decimal.Within size) (fuel : Nat) :
    (decimal.dropZeros fuel).Within (size + fuel) := by
  induction fuel generalizing decimal size with
  | zero => exact within
  | succ fuel ih =>
      unfold Decimal.dropZeros
      split
      · have exponent_le := within.exponent_le
        have shorter : Within (size + 1) ⟨decimal.digits / 10, decimal.exponent + 1⟩ := by
          constructor
          · apply Nat.lt_of_le_of_lt (Nat.div_le_self _ _)
            exact (within.mono (Nat.le_succ size)).digits_lt
          · change (decimal.exponent + 1).natAbs ≤ size + 1
            omega
        have dropped := ih shorter
        rw [Nat.add_assoc, Nat.add_comm 1 fuel] at dropped
        exact dropped
      · exact within.mono (Nat.le_add_right _ _)

variable (within : decimal.Within size) (positive : 0 < size)

include within positive

theorem length_positional_le : decimal.positional.length ≤ 2 * size + 2 := by
  have digits := length_digitChars_le positive within.digits_lt
  have exponent_le := within.exponent_le
  unfold positional
  split
  case h_1 zeros exponent =>
    rw [exponent] at exponent_le
    change zeros ≤ size at exponent_le
    simp only [List.length_append, List.length_replicate]
    omega
  case h_2 places exponent =>
    rw [exponent] at exponent_le
    dsimp only
    split
    · simp only [List.length_append, List.length_cons, List.length_take, List.length_drop]
      omega
    · simp only [List.length_append, List.length_cons, List.length_replicate]
      omega

theorem natAbs_order_le : decimal.order.natAbs ≤ 2 * size := by
  have digits := length_digitChars_le positive within.digits_lt
  have exponent_le := within.exponent_le
  unfold order
  omega

theorem length_scientific_le : decimal.scientific.length ≤ 3 * size + 4 := by
  have digits := length_digitChars_le positive within.digits_lt
  have order_le := within.natAbs_order_le positive
  unfold scientific
  rw [List.length_append, List.length_cons]
  apply Nat.le_trans (m := (size + 1) + ((2 * size + 2) + 1)) _ (by omega)
  apply Nat.add_le_add _ (Nat.succ_le_succ _)
  · split
    case h_1 first second rest shape =>
      rw [shape] at digits
      exact Nat.succ_le_succ digits
    case h_2 => exact Nat.le_succ_of_le digits
  · split
    case h_1 power shape =>
      rw [shape] at order_le
      change power ≤ 2 * size at order_le
      exact Nat.succ_le_succ (Nat.le_trans (length_digitChars_le_succ power) (by omega))
    case h_2 power shape =>
      rw [shape] at order_le
      change power + 1 ≤ 2 * size at order_le
      exact Nat.succ_le_succ (Nat.le_trans (length_digitChars_le_succ (power + 1)) (by omega))

theorem length_write_le : decimal.write.length ≤ 3 * size + 4 := by
  unfold write
  split
  · have positional := within.length_positional_le positive
    omega
  · exact within.length_scientific_le positive

end Within

end Decimal

namespace Magnitude

variable {magnitude : Magnitude} {decimal : Decimal}

/-- A significand shifted up to `places` bits has at most that many digits. -/
theorem significand_shiftLeft_lt (magnitude : Magnitude) {shift places : Nat}
    (enough : precision + shift ≤ places) :
    magnitude.significand <<< shift < Nat.pow 10 places := by
  rw [Nat.shiftLeft_eq]
  calc magnitude.significand * 2 ^ shift
      < 2 ^ precision * 2 ^ shift :=
        Nat.mul_lt_mul_of_pos_right magnitude.significand_lt (Nat.two_pow_pos shift)
    _ = 2 ^ (precision + shift) := (Nat.pow_add _ _ _).symm
    _ ≤ 10 ^ (precision + shift) := Nat.pow_le_pow_left (by decide) _
    _ ≤ 10 ^ places := Nat.pow_le_pow_right (by decide) enough

theorem mul_pow_five_lt {n places power : Nat} (small : n < Nat.pow 10 places) :
    n * Nat.pow 5 power < Nat.pow 10 (places + power) := by
  simp only [Nat.pow_eq] at small ⊢
  calc n * 5 ^ power < 10 ^ places * 5 ^ power :=
        Nat.mul_lt_mul_of_pos_right small (Nat.pow_pos (by decide))
    _ ≤ 10 ^ places * 10 ^ power :=
        Nat.mul_le_mul_left _ (Nat.pow_le_pow_left (by decide) _)
    _ = 10 ^ (places + power) := (Nat.pow_add _ _ _).symm

theorem scaled_lt (magnitude : Magnitude) (exponent : Int) :
    (magnitude.scaled exponent).1 < Nat.pow 10 (1024 + exponent.natAbs) := by
  have exponent_le := magnitude.exponent_le
  have whole : magnitude.significand <<< (magnitude.exponent - unitExponent) < Nat.pow 10 1024 := by
    apply significand_shiftLeft_lt
    unfold precision unitExponent
    omega
  generalize 1024 = places at whole ⊢
  unfold scaled
  generalize magnitude.significand <<< (magnitude.exponent - unitExponent) = numerator at whole ⊢
  split
  case h_1 power =>
    exact Nat.lt_of_lt_of_le whole (Nat.pow_le_pow_right (by decide) (Nat.le_add_right _ _))
  case h_2 power =>
    change numerator * 10 ^ (power + 1) < 10 ^ (places + (power + 1))
    rw [Nat.pow_add 10 places]
    exact Nat.mul_lt_mul_of_pos_right whole (Nat.pow_pos (by decide))

theorem natAbs_order_le (magnitude : Magnitude) : magnitude.order.natAbs ≤ 324 := by
  have exponent_le := magnitude.exponent_le
  have bits : magnitude.significand.log2 ≤ 52 := by
    by_cases isZero : magnitude.significand = 0
    · rw [isZero]
      decide
    · exact Nat.le_of_lt_succ ((Nat.log2_lt isZero).mpr magnitude.significand_lt)
  unfold order unitExponent
  dsimp only
  split
  · omega
  · omega

/-- What is picked of two decimals reads back. -/
theorem of_pick {near far : Decimal}
    (picked : (if near.toMagnitude? = some magnitude then some near
      else if far.toMagnitude? = some magnitude then some far else none) = some decimal) :
    decimal.toMagnitude? = some magnitude ∧ (decimal = near ∨ decimal = far) := by
  split at picked
  case isTrue reads =>
    cases picked
    exact ⟨reads, .inl rfl⟩
  case isFalse =>
    split at picked
    case isTrue reads =>
      cases picked
      exact ⟨reads, .inr rfl⟩
    case isFalse => cases picked

/-- What is found with an exponent reads back and has not too many digits. -/
theorem exists_of_decimalAt? {exponent : Int}
    (found : magnitude.decimalAt? exponent = some decimal) :
    decimal.toMagnitude? = some magnitude ∧
      ∃ digits ≤ (magnitude.scaled exponent).1 + 1, decimal = ⟨digits, exponent⟩ := by
  unfold decimalAt? at found
  generalize magnitude.scaled exponent = fraction at found ⊢
  rcases fraction with ⟨numerator, denominator⟩
  have below : numerator / denominator ≤ numerator + 1 :=
    Nat.le_succ_of_le (Nat.div_le_self _ _)
  have above : numerator / denominator + 1 ≤ numerator + 1 :=
    Nat.succ_le_succ (Nat.div_le_self _ _)
  by_cases upward : denominator ≤ 2 * (numerator % denominator)
  · simp only [if_pos upward] at found
    rcases of_pick found with ⟨reads, rfl | rfl⟩
    · exact ⟨reads, _, above, rfl⟩
    · exact ⟨reads, _, below, rfl⟩
  · simp only [if_neg upward] at found
    rcases of_pick found with ⟨reads, rfl | rfl⟩
    · exact ⟨reads, _, below, rfl⟩
    · exact ⟨reads, _, above, rfl⟩

theorem within_of_decimalAt? {exponent : Int}
    (found : magnitude.decimalAt? exponent = some decimal) :
    decimal.Within (1024 + exponent.natAbs + 1) := by
  have small := magnitude.scaled_lt exponent
  rcases exists_of_decimalAt? found with ⟨-, digits, digits_le, rfl⟩
  constructor
  · apply Nat.lt_of_le_of_lt (Nat.le_trans digits_le small)
    exact Nat.pow_lt_pow_right (by decide) (Nat.lt_succ_self _)
  · change exponent.natAbs ≤ _
    omega

theorem within_of_firstDecimal? {exponent : Int} {tries : Nat}
    (found : magnitude.firstDecimal? exponent tries = some decimal) :
    decimal.Within (1024 + exponent.natAbs + 1 + tries) := by
  induction tries generalizing exponent with
  | zero => cases found
  | succ tries ih =>
      unfold firstDecimal? at found
      split at found
      case h_1 here =>
        cases found
        exact (within_of_decimalAt? here).mono (Nat.le_add_right _ _)
      case h_2 => exact (ih found).mono (by omega)

theorem within_exactDecimal (magnitude : Magnitude) :
    magnitude.exactDecimal.Within (2098 + unitExponent) := by
  have exponent_le := magnitude.exponent_le
  constructor
  · apply mul_pow_five_lt
    apply significand_shiftLeft_lt
    unfold precision
    omega
  · change (-(unitExponent : Int)).natAbs ≤ 2098 + unitExponent
    decide

theorem within_shortestDecimal (magnitude : Magnitude) :
    magnitude.shortestDecimal.Within (2098 + unitExponent) := by
  unfold shortestDecimal
  split
  case h_1 found =>
    have bounded := (within_of_firstDecimal? found).dropZeros 17
    have order := magnitude.natAbs_order_le
    exact bounded.mono (by omega)
  case h_2 => exact magnitude.within_exactDecimal

end Magnitude

theorem Binary64.length_write_le (number : Binary64) : number.write.length ≤ 9521 := by
  unfold write
  split
  case h_1 => decide
  case h_2 negative => cases negative <;> decide
  case h_3 negative magnitude =>
    have bounded : magnitude.shortestDecimal.write.length ≤ 9520 :=
      magnitude.within_shortestDecimal.length_write_le (by decide)
    split
    · decide
    · dsimp only
      split
      · simp only [List.length_cons]
        omega
      · omega

end Esoterica
