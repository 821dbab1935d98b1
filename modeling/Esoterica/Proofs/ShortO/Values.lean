import Esoterica.Proofs.Binary64.Rounding
import Esoterica.Proofs.Binary64.Writing
import Esoterica.ShortO.Operator

/-!
# What operators make of values

Operators make finite numbers of finite numbers, and texts that are no longer than a limit of texts
that are no longer. Numbers that are computed are replaced if they are not finite, so that only
counts, codes and random fractions need a reason of their own. A text that is longer than those it
is made of has passed a check first. The check for copies multiplies rounded numbers; what it lets
pass is exact nevertheless, since a product is rounded below the limit only if it is below it.
-/

namespace Esoterica

namespace Pattern

variable (pattern : Pattern)

theorem size_eraseNext_le (state : Array Char × Nat) (c : Char) :
    (pattern.eraseNext state c).1.size ≤ state.1.size + 1 := by
  simp only [eraseNext]
  split
  · simp only [Array.size_shrink, Array.size_push]
    omega
  · simp

theorem size_foldl_eraseNext_le (text : List Char) (state : Array Char × Nat) :
    (text.foldl pattern.eraseNext state).1.size ≤ state.1.size + text.length := by
  induction text generalizing state with
  | nil => simp
  | cons c rest ih =>
      have first := pattern.size_eraseNext_le state c
      have later := ih (pattern.eraseNext state c)
      simp only [List.foldl_cons, List.length_cons]
      omega

theorem length_eraseFrom_le (text : String) : (pattern.eraseFrom text).length ≤ text.length := by
  have erased := pattern.size_foldl_eraseNext_le text.toList (#[], 0)
  rw [String.length_toList] at erased
  simpa [eraseFrom] using erased

end Pattern

namespace RandomStream

/-- A fraction has at most 53 bits, so it is far from the largest number. -/
theorem isFinite_nextFraction (stream : RandomStream) :
    stream.nextFraction.1.isFinite = true := by
  unfold nextFraction
  apply Binary64.isFinite_round
  have small := (stream.next.1 >>> 11).toNat_lt
  have inRange := Binary64.inRange_of_lt_size small
  unfold unitExponent precision at inRange ⊢
  omega

end RandomStream

namespace ShortO

theorem countDigits_le (divisions : Nat) (number : Binary64) :
    countDigits divisions number ≤ divisions + 1 := by
  induction divisions generalizing number with
  | zero => exact Nat.le_refl 1
  | succ divisions ih =>
      unfold countDigits
      split
      · exact Nat.succ_le_succ (ih _)
      · omega

namespace StackAction

/-- As often as the number says, the text could not be written without failing the check. -/
theorem lt_requestedLength {length : Nat} {factor : Magnitude} (countable : length < UInt64.size)
    (tooLong : maxTextLength < factor.whole * length) :
    maxTextLength < requestedLength length (.finite false factor) := by
  rcases Binary64.exists_of_ofNat countable with ⟨magnitude, rounds, whole_le⟩
  have isNumber : (Binary64.finite false magnitude * .finite false factor).isNaN = false :=
    Binary64.isNaN_round _ _ _ _
  have large : maxTextLength + 1 ≤ magnitude.whole * factor.whole := by
    rcases Nat.le_total length (Nat.pow 2 precision) with precise | rounded
    · rw [Nat.min_eq_left precise] at whole_le
      rw [Nat.mul_comm]
      exact Nat.le_trans tooLong (Nat.mul_le_mul_left _ whole_le)
    · rw [Nat.min_eq_right rounded] at whole_le
      have positive : 1 ≤ factor.whole := by
        apply Nat.pos_of_ne_zero
        intro isZero
        rw [isZero, Nat.zero_mul] at tooLong
        exact absurd tooLong (Nat.not_lt_zero _)
      have enough : maxTextLength + 1 ≤ Nat.pow 2 precision := by decide
      exact Nat.le_trans enough (Nat.le_trans whole_le (Nat.le_mul_of_pos_right _ positive))
  simp only [requestedLength, rounds, isNumber, Bool.false_eq_true, if_false]
  exact Binary64.le_toUnsigned_mul (by decide) large

/-- Nothing times infinity is NaN, and all else is infinite; neither passes. -/
theorem lt_requestedLength_infinite {length : Nat} (countable : length < UInt64.size) :
    maxTextLength < requestedLength length (.infinite false) := by
  rcases Binary64.exists_of_ofNat countable with ⟨magnitude, rounds, _⟩
  have product : Binary64.finite false magnitude * .infinite false =
      if magnitude.significand = 0 then .nan else .infinite false := rfl
  simp only [requestedLength, rounds, product]
  split
  · decide
  · decide

/-- A text that passes the check is not too long, however the product was rounded. -/
theorem toUnsigned_mul_le {length : Nat} {count : Binary64} (countable : length < UInt64.size)
    (passes : requestedLength length count ≤ maxTextLength) :
    count.toUnsigned * length ≤ maxTextLength := by
  cases count with
  | nan =>
      have none : Binary64.nan.toUnsigned = 0 := rfl
      rw [none, Nat.zero_mul]
      exact Nat.zero_le _
  | infinite negative =>
      cases negative with
      | true =>
          have none : (Binary64.infinite true).toUnsigned = 0 := rfl
          rw [none, Nat.zero_mul]
          exact Nat.zero_le _
      | false =>
          exact absurd passes (Nat.not_le_of_lt (lt_requestedLength_infinite countable))
  | finite negative factor =>
      cases negative with
      | true =>
          rw [Binary64.toUnsigned_negative, Nat.zero_mul]
          exact Nat.zero_le _
      | false =>
          rw [Binary64.toUnsigned_finite]
          apply Nat.le_trans (Nat.mul_le_mul_right _ (Nat.min_le_right _ _))
          apply Nat.le_of_not_lt
          intro tooLong
          have fails := lt_requestedLength countable tooLong
          exact absurd passes (Nat.not_le_of_lt fails)

end StackAction

namespace Value

/-- A finite number, or a text of at most `limit` characters. -/
def Within (limit : Nat) : Value → Prop
  | number n => n.isFinite = true
  | text t => t.length ≤ limit

variable {limit : Nat} {value left right : Value}

theorem within_ofNat {n : Nat} (small : n < UInt64.size) : (number (.ofNat n)).Within limit :=
  Binary64.isFinite_ofNat small

theorem within_ofBool (condition : Bool) : (ofBool condition).Within limit := by
  cases condition with
  | false => exact within_ofNat (n := 0) (by decide)
  | true => exact within_ofNat (n := 1) (by decide)

theorem within_ofOrdering (ordering : Ordering) : (ofOrdering ordering).Within limit := by
  have one : (Binary64.ofNat 1).isFinite = true := Binary64.isFinite_ofNat (by decide)
  cases ordering with
  | lt => exact (Binary64.isFinite_neg _).trans one
  | eq => exact within_ofNat (n := 0) (by decide)
  | gt => exact one

section

variable (large : maxTextLength ≤ limit)

include large

theorem within_text {t : String} (short : t.length ≤ maxTextLength) : (text t).Within limit :=
  Nat.le_trans short large

theorem within_notANumber : notANumber.Within limit :=
  within_text large (by decide)

theorem within_char (c : Char) : (text c.toString).Within limit := by
  apply within_text large
  rw [Char.toString_eq_singleton, String.length_singleton]
  decide

/-- Whatever a number is computed to be, its value is within the limit. -/
theorem within_ofNumber (n : Binary64) : (ofNumber n).Within limit := by
  cases n with
  | nan => exact within_notANumber large
  | infinite negative => cases negative <;> exact within_text large (by decide)
  | finite negative magnitude => rfl

theorem length_toText_le (within : value.Within limit) : value.toText.length ≤ limit := by
  cases value with
  | text t => exact within
  | number n =>
      have written := n.length_write_le
      have enough : 9521 ≤ maxTextLength := by decide
      simp only [toText, Binary64.toText, String.length_ofList]
      omega

theorem within_toText (within : value.Within limit) : (text value.toText).Within limit :=
  length_toText_le large within

theorem within_toNumber (within : value.Within limit) : value.toNumber.Within limit := by
  cases value with
  | text t => exact within_ofNumber large _
  | number n => exact within

theorem within_toCharacter (within : value.Within limit) : value.toCharacter.Within limit := by
  cases value with
  | text t => exact within
  | number n => exact within_char large (charWithCode n)

theorem within_floor (within : value.Within limit) : value.floor.Within limit := by
  cases value with
  | text t => exact within
  | number n => exact within_ofNumber large _

theorem within_difference (leftWithin : left.Within limit) (rightWithin : right.Within limit) :
    (left.difference right).Within limit := by
  cases left with
  | number left =>
      cases right with
      | number right => exact within_ofNumber large _
      | text right =>
          apply Nat.le_trans _ rightWithin
          rw [← String.length_toList, String.toList_copy_drop, List.length_drop,
            String.length_toList]
          exact Nat.sub_le _ _
  | text left =>
      cases right with
      | number right =>
          apply Nat.le_trans _ leftWithin
          rw [← String.length_toList, String.toList_copy_take, List.length_take,
            String.length_toList]
          exact Nat.min_le_right _ _
      | text right => exact Nat.le_trans (Pattern.length_eraseFrom_le _ left) leftWithin

end

theorem length_lt (countable : limit < UInt64.size) (within : value.Within limit) :
    value.length < UInt64.size := by
  cases value with
  | text t => exact Nat.lt_of_le_of_lt within countable
  | number n =>
      have digits := countDigits_le 308 n.floor.abs
      have enough : 308 + 1 < UInt64.size := by decide
      exact Nat.lt_of_le_of_lt digits enough

end Value

end ShortO

end Esoterica
