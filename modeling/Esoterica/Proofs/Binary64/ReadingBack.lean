import Esoterica.Proofs.Binary64.LongestNumber
import Esoterica.Proofs.Binary64.Writing

/-!
# Written numbers read back

The shortest decimal of a magnitude is read back as this magnitude, by the way it is searched for.
Whether it is written with or without an exponent, it is written as a literal of the same value. So
reading what is written of a finite number gives it back; of the two zeros, the positive one.
-/

namespace Esoterica

namespace Decimal

/-- Without trailing zeros the decimal has the same magnitude. -/
theorem toMagnitude?_dropZeros (fuel : Nat) (decimal : Decimal) :
    (decimal.dropZeros fuel).toMagnitude? = decimal.toMagnitude? := by
  induction fuel generalizing decimal with
  | zero => rfl
  | succ fuel ih =>
      unfold dropZeros
      split
      case isTrue trailing =>
        rcases decimal with ⟨digits, exponent⟩
        have tenfold : digits / 10 * Nat.pow 10 1 = digits :=
          Nat.div_mul_cancel (Nat.dvd_of_mod_eq_zero trailing.2)
        have same := toMagnitude?_mul_pow (digits / 10) 1 exponent
        rw [tenfold] at same
        rw [ih, same]
        rfl
      case isFalse => rfl

end Decimal

namespace Magnitude

variable {magnitude : Magnitude} {decimal : Decimal}

theorem toMagnitude?_of_firstDecimal? {exponent : Int} {tries : Nat}
    (found : magnitude.firstDecimal? exponent tries = some decimal) :
    decimal.toMagnitude? = some magnitude := by
  induction tries generalizing exponent with
  | zero => cases found
  | succ tries ih =>
      unfold firstDecimal? at found
      split at found
      case h_1 here =>
        cases found
        exact (exists_of_decimalAt? here).1
      case h_2 => exact ih found

/-- The shortest decimal is read back, even if the search had to give up. -/
theorem toMagnitude?_shortestDecimal (magnitude : Magnitude) :
    magnitude.shortestDecimal.toMagnitude? = some magnitude := by
  unfold shortestDecimal
  split
  case h_1 found =>
    rw [Decimal.toMagnitude?_dropZeros]
    exact toMagnitude?_of_firstDecimal? found
  case h_2 => exact magnitude.toMagnitude?_exactDecimal

end Magnitude

namespace Decimal

variable {decimal : Decimal} {size : Nat}

/-! ### Digits of numbers -/

theorem isDigit_of_mem_digitChars {n : Nat} : ∀ c ∈ digitChars n, c.isDigit = true :=
  fun _ mem => Nat.isDigit_of_mem_toDigits (by decide) (by decide) mem

theorem digitChars_ne_nil (n : Nat) : digitChars n ≠ [] :=
  Nat.toDigits_ne_nil

theorem ofDigitChars_digitChars (n : Nat) : ofDigitChars (digitChars n) = n := by
  rw [ofDigitChars_eq]
  exact Nat.ofDigitChars_ten_toDigits

theorem ofDigitChars_append_zeros (digits : List Char) (count : Nat) :
    ofDigitChars (digits ++ List.replicate count '0') = ofDigitChars digits * Nat.pow 10 count := by
  rw [ofDigitChars_eq, ofDigitChars_eq, Nat.ofDigitChars_append, Nat.ofDigitChars_replicate_zero]
  exact Nat.mul_comm _ _

theorem ofDigitChars_zeros_append (count : Nat) (digits : List Char) :
    ofDigitChars (List.replicate count '0' ++ digits) = ofDigitChars digits := by
  rw [ofDigitChars_eq, ofDigitChars_eq, Nat.ofDigitChars_append, Nat.ofDigitChars_replicate_zero,
    Nat.mul_zero]

theorem isDigit_of_mem_zeros (count : Nat) : ∀ c ∈ List.replicate count '0', c.isDigit = true := by
  intro c mem
  rw [(List.mem_replicate.mp mem).2]
  rfl

/-! ### Literals that are written -/

/-- The text is that of a literal with the magnitude of the decimal. -/
def Spells (text : List Char) (decimal : Decimal) : Prop :=
  ∃ literal : Literal, text = literal.text ∧ literal.decimal.toMagnitude? = decimal.toMagnitude?

/-- Digits and an exponent spell a decimal if they have its digits and its exponent. -/
theorem spells_of_parts (whole : List Char) (fraction? : Option (List Char))
    (exponent? : Option Exponent) (wholeDigits : ∀ c ∈ whole, c.isDigit = true)
    (fractionDigits : ∀ c ∈ fraction?.getD [], c.isDigit = true) (nonempty : whole ≠ [])
    (digits : ofDigitChars (whole ++ fraction?.getD []) = decimal.digits)
    (exponent : exponentRead exponent? - (fraction?.getD []).length = decimal.exponent) :
    Spells (whole ++ (pointed fraction? ++ exponentText exponent?)) decimal := by
  refine ⟨⟨whole, fraction?, exponent?, wholeDigits, fractionDigits, .inl nonempty⟩, rfl, ?_⟩
  apply congrArg toMagnitude?
  rcases decimal with ⟨_, _⟩
  subst digits exponent
  rfl

/-- Without a point, zeros behind the digits stand for the exponent. -/
theorem spells_zeros (digits count : Nat) :
    Spells (digitChars digits ++ List.replicate count '0') ⟨digits, count⟩ := by
  have areDigits : ∀ c ∈ digitChars digits ++ List.replicate count '0', c.isDigit = true :=
    List.forall_mem_append.mpr ⟨isDigit_of_mem_digitChars, isDigit_of_mem_zeros count⟩
  have nonempty : digitChars digits ++ List.replicate count '0' ≠ [] := by
    simp [digitChars_ne_nil]
  have value : ofDigitChars (digitChars digits ++ List.replicate count '0' ++ []) =
      digits * Nat.pow 10 count := by
    rw [List.append_nil, ofDigitChars_append_zeros, ofDigitChars_digitChars]
  -- The zeros are read as digits, so this is another decimal of the same value.
  have spells : Spells _ ⟨digits * Nat.pow 10 count, 0⟩ :=
    spells_of_parts _ none none areDigits (by simp) nonempty value rfl
  have trailing := toMagnitude?_mul_pow digits count 0
  rw [Int.zero_add] at trailing
  simp only [Spells, pointed, exponentText, List.append_nil, trailing] at spells
  exact spells

/-- A point among the digits counts those behind it. -/
theorem spells_inside {digits count : Nat} (inside : count < (digitChars digits).length) :
    Spells ((digitChars digits).take ((digitChars digits).length - count) ++
      '.' :: (digitChars digits).drop ((digitChars digits).length - count)) ⟨digits, -count⟩ := by
  have value := ofDigitChars_digitChars digits
  have areDigits : ∀ c ∈ digitChars digits, c.isDigit = true := isDigit_of_mem_digitChars
  generalize digitChars digits = chars at *
  have nonempty : chars.take (chars.length - count) ≠ [] := by
    apply List.ne_nil_of_length_pos
    rw [List.length_take]
    omega
  have places : 0 - ((chars.drop (chars.length - count)).length : Int) = -count := by
    rw [List.length_drop]
    omega
  have spells : Spells _ ⟨digits, -count⟩ :=
    spells_of_parts (chars.take (chars.length - count))
      (some (chars.drop (chars.length - count))) none
      (fun c mem => areDigits c (List.mem_of_mem_take mem))
      (fun c mem => areDigits c (List.mem_of_mem_drop mem)) nonempty
      (by rw [Option.getD_some, List.take_append_drop, value]) places
  rwa [exponentText, List.append_nil] at spells

/-- In front of few digits, a point is followed by zeros. -/
theorem spells_outside {digits count : Nat} (outside : (digitChars digits).length ≤ count) :
    Spells ('0' :: '.' :: (List.replicate (count - (digitChars digits).length) '0' ++
      digitChars digits)) ⟨digits, -count⟩ := by
  have value := ofDigitChars_digitChars digits
  have areDigits : ∀ c ∈ digitChars digits, c.isDigit = true := isDigit_of_mem_digitChars
  generalize digitChars digits = chars at *
  have noValue : ofDigitChars (['0'] ++ (List.replicate (count - chars.length) '0' ++ chars)) =
      digits :=
    (ofDigitChars_zeros_append 1 _).trans ((ofDigitChars_zeros_append _ _).trans value)
  have places :
      0 - ((List.replicate (count - chars.length) '0' ++ chars).length : Int) = -count := by
    rw [List.length_append, List.length_replicate]
    omega
  have spells : Spells _ ⟨digits, -count⟩ :=
    spells_of_parts ['0'] (some (List.replicate (count - chars.length) '0' ++ chars)) none
      (by simp) (List.forall_mem_append.mpr ⟨isDigit_of_mem_zeros _, areDigits⟩) (by simp) noValue
      places
  rwa [exponentText, List.append_nil] at spells

theorem spells_positional (decimal : Decimal) : Spells decimal.positional decimal := by
  rcases decimal with ⟨digits, exponent⟩
  unfold positional
  split
  case h_1 count isWhole =>
    cases isWhole
    exact spells_zeros digits count
  case h_2 places isFraction =>
    cases isFraction
    dsimp only
    split
    case isTrue inside => exact spells_inside inside
    case isFalse outside => exact spells_outside (Nat.le_of_not_lt outside)

/-- The first digit, and the others behind a point. -/
def mantissa : List Char → List Char
  | first :: second :: rest => first :: '.' :: second :: rest
  | single => single

/-- The exponent as it is written behind its mark. -/
def exponentChars : Int → List Char
  | .ofNat power => '+' :: digitChars power
  | .negSucc power => '-' :: digitChars (power + 1)

theorem scientific_eq (decimal : Decimal) :
    decimal.scientific =
      mantissa (digitChars decimal.digits) ++ 'e' :: exponentChars decimal.order :=
  rfl

/-- What is written as an exponent is read as such. -/
theorem exists_exponent {order : Int} (small : order.natAbs < 0x10000) :
    ∃ exponent : Exponent, 'e' :: exponentChars order = exponent.text ∧ exponent.read = order := by
  have read {power : Nat} (power_lt : power < 0x10000) :
      ofExponentChars (digitChars power) = power :=
    have value : Nat.ofDigitChars 10 (digitChars power) 0 = power := Nat.ofDigitChars_ten_toDigits
    (ofExponentChars_eq (by rwa [value])).trans value
  cases order with
  | ofNat power =>
      refine ⟨⟨'e', ['+'], digitChars power, .inl rfl, .inr (.inl rfl), digitChars_ne_nil power,
        isDigit_of_mem_digitChars⟩, rfl, ?_⟩
      exact congrArg Int.ofNat (read small)
  | negSucc power =>
      refine ⟨⟨'e', ['-'], digitChars (power + 1), .inl rfl, .inr (.inr rfl), digitChars_ne_nil _,
        isDigit_of_mem_digitChars⟩, rfl, ?_⟩
      exact congrArg (fun absolute : Nat => -(absolute : Int)) (read small)

theorem spells_scientific (small : decimal.order.natAbs < 0x10000) :
    Spells decimal.scientific decimal := by
  rcases decimal with ⟨digits, exponent⟩
  have value := ofDigitChars_digitChars digits
  have areDigits : ∀ c ∈ digitChars digits, c.isDigit = true := isDigit_of_mem_digitChars
  have nonempty := digitChars_ne_nil digits
  rcases exists_exponent small with ⟨written, text, reads⟩
  rw [scientific_eq, text]
  unfold order at reads
  dsimp only at reads ⊢
  generalize digitChars digits = chars at *
  rcases chars with _ | ⟨first, _ | ⟨second, rest⟩⟩
  · exact absurd rfl nonempty
  · have power : exponentRead (some written) - (0 : Nat) = exponent := by
      rw [exponentRead, reads]
      simp
    exact spells_of_parts [first] none (some written) areDigits (by simp) (by simp) value power
  · have power : exponentRead (some written) - (second :: rest).length = exponent := by
      rw [exponentRead, reads, List.length_cons, List.length_cons]
      omega
    rcases List.forall_mem_cons.mp areDigits with ⟨firstDigit, otherDigits⟩
    exact spells_of_parts [first] (some (second :: rest)) (some written)
      (List.forall_mem_singleton.mpr firstDigit) otherDigits (by simp) value power

theorem spells_write (small : decimal.order.natAbs < 0x10000) : Spells decimal.write decimal := by
  unfold write
  split
  · exact spells_positional decimal
  · exact spells_scientific small

end Decimal

/-- What is written of a magnitude is a literal that is read back. -/
theorem Magnitude.exists_literal (magnitude : Magnitude) :
    ∃ literal : Decimal.Literal, magnitude.shortestDecimal.write = literal.text ∧
      literal.decimal.toMagnitude? = some magnitude := by
  have order_le := magnitude.within_shortestDecimal.natAbs_order_le (by decide)
  have small : magnitude.shortestDecimal.order.natAbs < 0x10000 :=
    Nat.lt_of_le_of_lt order_le (by decide)
  rcases Decimal.spells_write small with ⟨literal, text, same⟩
  exact ⟨literal, text, same.trans magnitude.toMagnitude?_shortestDecimal⟩

namespace Binary64

open Decimal

/-- The number without the sign of a zero. -/
def withoutZeroSign (number : Binary64) : Binary64 :=
  if number.isZero then 0 else number

/-- The sign of a zero makes no other number. -/
theorem compare?_withoutZeroSign (negative : Bool) (magnitude : Magnitude) :
    compare? (withoutZeroSign (finite negative magnitude)) (finite negative magnitude) =
      some .eq := by
  unfold withoutZeroSign
  split
  case isTrue isZero =>
    rw [Magnitude.eq_zero_of_significand_eq_zero (beq_iff_eq.mp isZero)]
    cases negative with
    | false | true => decide +kernel
  case isFalse => exact congrArg some Std.ReflCmp.compare_self

/-- What is written of a finite number is read as this number. -/
theorem readStart_write (negative : Bool) (magnitude : Magnitude) :
    readStart (finite negative magnitude).write = withoutZeroSign (finite negative magnitude) := by
  unfold withoutZeroSign
  by_cases isZero : magnitude.significand = 0
  · have writesZero : (finite negative magnitude).write = ['0'] := if_pos isZero
    have zero : (finite negative magnitude).isZero = true := beq_iff_eq.mpr isZero
    rw [writesZero, zero, if_pos rfl]
    decide +kernel
  · have nonzero : (finite negative magnitude).isZero = false := beq_eq_false_iff_ne.mpr isZero
    rcases magnitude.exists_literal with ⟨literal, text, reads⟩
    have back (negative : Bool) :
        literal.decimal.toBinary64 negative = finite negative magnitude := by
      rw [toBinary64, reads]
    rw [write, if_neg isZero, nonzero, text]
    cases negative with
    | false => exact (readStart_literal (.inl rfl) literal).trans (back false)
    | true => exact (readStart_literal (.inr (.inr rfl)) literal).trans (back true)

end Binary64

end Esoterica
