import Esoterica.Proofs.ShortO.Repetition

/-!
# Cutting texts

A text and a number are subtracted by cutting the text: a number on the left cuts characters off in
front, one on the right cuts them off at the end. For the end the point of the cut is itself a
difference of numbers, that of the length and the number, which is rounded before it is brought into
the range of the text. Rounding keeps the order to the ends of this range, and whole numbers are
exact, so both cuts are where they should be, and what they leave can be joined to the text again.
-/

namespace Esoterica

namespace ShortO

open StackAction

/-! ### The point of the cut -/

section point

variable {length : Nat} {number : Binary64}

theorem cutPoint_of_le_zero (notAbove : number.le 0 = true) : cutPoint number length = 0 := by
  rw [cutPoint, notAbove, Bool.or_true, if_pos rfl]

theorem cutPoint_of_lt_zero (negative : number.lt 0 = true) : cutPoint number length = 0 := by
  apply cutPoint_of_le_zero
  unfold Binary64.lt at negative
  rw [Binary64.le, negative]
  rfl

theorem cutPoint_finite (small : length ≤ Nat.pow 2 precision) (magnitude : Magnitude) :
    cutPoint (.finite false magnitude) length = min length magnitude.whole := by
  obtain ⟨whole, isLength, units⟩ := Binary64.exists_ofNat small
  have reaches : (Binary64.ofNat length).le (.finite false magnitude) = true ↔
      length ≤ magnitude.whole := by
    rw [isLength, Binary64.le_finite_iff, Magnitude.le_whole_iff, units]
    exact Int.ofNat_le
  have isNothing : Binary64.le (.finite false magnitude) 0 = true ↔ magnitude.units = 0 := by
    rw [Binary64.zero_eq, Binary64.le_finite_iff]
    exact Int.ofNat_le.trans Nat.le_zero
  have notNaN : Binary64.isNaN (.finite false magnitude) = false := rfl
  have isWhole : (Binary64.finite false magnitude).toInt.toNat = magnitude.whole := rfl
  simp only [cutPoint, notNaN, Bool.false_or, isNothing, reaches, isWhole]
  split
  case isTrue noUnits =>
    rw [Magnitude.eq_zero_of_units_eq_zero noUnits]
    exact (Nat.min_zero length).symm
  case isFalse =>
    split
    case isTrue enough => exact (Nat.min_eq_left enough).symm
    case isFalse less => exact (Nat.min_eq_right (Nat.le_of_not_le less)).symm

theorem cutPoint_infinite (small : length ≤ Nat.pow 2 precision) :
    cutPoint (.infinite false) length = length := by
  obtain ⟨whole, isLength, _⟩ := Binary64.exists_ofNat small
  have reaches : (Binary64.ofNat length).le (.infinite false) = true := by
    rw [isLength]
    rfl
  have notBelow :
      (Binary64.isNaN (.infinite false) || Binary64.le (.infinite false) 0) = false := by
    rw [Binary64.zero_eq]
    rfl
  rw [cutPoint, notBelow, if_neg Bool.false_ne_true, if_pos reaches]

/-- A number above the length leaves nothing of a text. -/
theorem cutPoint_of_lt (small : length ≤ Nat.pow 2 precision)
    (above : (Binary64.ofNat length).lt number = true) : cutPoint number length = length := by
  obtain ⟨whole, isLength, units⟩ := Binary64.exists_ofNat small
  rw [isLength] at above
  cases number with
  | nan => cases above
  | infinite negative =>
      cases negative with
      | false => exact cutPoint_infinite small
      | true => cases above
  | finite negative magnitude =>
      rw [Binary64.lt_finite_iff] at above
      cases negative with
      | false =>
          have enough : length ≤ magnitude.whole := by
            rw [Magnitude.le_whole_iff, ← units]
            exact Nat.le_of_lt (Int.ofNat_lt.mp above)
          rw [cutPoint_finite small, Nat.min_eq_left enough]
      | true =>
          simp only [Binary64.signed, Bool.false_eq_true, if_true, if_false] at above
          omega

theorem cutPoint_round_negative (base numerator denominator : Nat) :
    cutPoint (.round true base numerator denominator) length = 0 := by
  unfold Binary64.round
  split
  case h_1 magnitude _ =>
    apply cutPoint_of_le_zero
    rw [Binary64.zero_eq, Binary64.le_finite_iff]
    simp only [Binary64.signed, Bool.false_eq_true, if_true, if_false]
    omega
  case h_2 => exact cutPoint_of_lt_zero (by rw [Binary64.zero_eq]; rfl)

theorem cutPoint_round (small : length ≤ Nat.pow 2 precision) {base numerator denominator : Nat}
    (positive : 0 < denominator)
    (above : (length <<< unitExponent) * denominator ≤ numerator <<< base) :
    cutPoint (.round false base numerator denominator) length = length := by
  unfold Binary64.round
  split
  case h_1 magnitude nearest =>
    have enough := Magnitude.le_whole_of_nearest? small positive nearest above
    rw [cutPoint_finite small, Nat.min_eq_left enough]
  case h_2 => exact cutPoint_infinite small

/-- Nothing is left of a text either if the number is subtracted from the length. -/
theorem cutPoint_sub_of_lt (small : length ≤ Nat.pow 2 precision)
    (above : (Binary64.ofNat length).lt number = true) :
    cutPoint (Binary64.ofNat length - number) length = 0 := by
  obtain ⟨whole, isLength, _⟩ := Binary64.exists_ofNat small
  rw [isLength] at above ⊢
  cases number with
  | nan => cases above
  | infinite negative =>
      cases negative with
      | false =>
          change cutPoint (.infinite true) length = 0
          exact cutPoint_of_lt_zero (by rw [Binary64.zero_eq]; rfl)
      | true => cases above
  | finite negative magnitude =>
      rw [Binary64.lt_finite_iff] at above
      change cutPoint (.finite false whole + .finite (!negative) magnitude) length = 0
      have below : Binary64.signed false whole.units + Binary64.signed (!negative) magnitude.units <
          0 := by
        rw [Binary64.signed_not]
        omega
      rw [Binary64.add_finite rfl, if_neg (Int.ne_of_lt below), decide_eq_true below]
      exact cutPoint_round_negative _ _ _

/-- A negative number leaves the whole text. -/
theorem cutPoint_sub_of_lt_zero (small : length ≤ Nat.pow 2 precision)
    (negative : number.lt 0 = true) :
    cutPoint (Binary64.ofNat length - number) length = length := by
  obtain ⟨whole, isLength, units⟩ := Binary64.exists_ofNat small
  rw [Binary64.zero_eq] at negative
  rw [isLength]
  cases number with
  | nan => cases negative
  | infinite sign =>
      cases sign with
      | false => cases negative
      | true => exact cutPoint_infinite small
  | finite sign magnitude =>
      rw [Binary64.lt_finite_iff] at negative
      change cutPoint (.finite false whole + .finite (!sign) magnitude) length = length
      have noUnits : Binary64.signed false Magnitude.zero.units = 0 := rfl
      have isWhole : Binary64.signed false whole.units = whole.units := rfl
      have above : Binary64.signed false whole.units <
          Binary64.signed false whole.units + Binary64.signed (!sign) magnitude.units := by
        rw [Binary64.signed_not]
        omega
      generalize isSum : Binary64.signed false whole.units +
        Binary64.signed (!sign) magnitude.units = sum at above
      rw [Binary64.add_finite isSum, if_neg (by omega), decide_eq_false (by omega)]
      apply cutPoint_round small Nat.one_pos
      rw [Nat.mul_one, Nat.shiftLeft_zero, ← units]
      omega

/-- A whole number cuts as many characters off. -/
theorem cutPoint_ofNat (small : length ≤ Nat.pow 2 precision) {count : Nat}
    (le : count ≤ length) : cutPoint (.ofNat count) length = count := by
  obtain ⟨magnitude, isCount, units⟩ := Binary64.exists_ofNat (Nat.le_trans le small)
  rw [isCount, cutPoint_finite small, Magnitude.whole_of_units units, Nat.min_eq_right le]

end point

/-! ### The operators -/

section operators

variable {machine : Machine Token Stack} {values : List Value}

theorem popPair_holding (left right : Value) :
    popPair (machine.holding (values ++ [left, right])) =
      .ok (left, right) (machine.holding values) := by
  have split : values ++ [left, right] = values ++ [left] ++ [right] := by simp
  simp only [popPair, bind, EStateM.bind, split, pop_holding]
  rfl

theorem perform_subtract (room : values.length < machine.state.capacity) (left right : Value) :
    (language .standard).perform (.operator '-') (machine.holding (values ++ [left, right])) =
      (.ok .proceed, machine.holding (values ++ [left.difference right])) := by
  have applies : execute .standard (.operator '-') = Operator.subtract.apply := rfl
  simp only [Language.perform, language, applies, Operator.apply, bind, EStateM.bind,
    popPair_holding, push_holding, if_pos room]
  rfl

theorem perform_add_texts (room : values.length < machine.state.capacity) (left right : String)
    (short : (left ++ right).length ≤ maxTextLength) :
    (language .standard).perform (.operator '+')
        (machine.holding (values ++ [.text left, .text right])) =
      (.ok .proceed, machine.holding (values ++ [.text (left ++ right)])) := by
  have applies : execute .standard (.operator '+') = Operator.add.apply := rfl
  have checked : checkLength '+' (.text left) (.text right) (left ++ right).length
      (machine.holding values) = .ok () (machine.holding values) := by
    rw [checkLength, if_neg (Nat.not_lt.mpr short)]
    rfl
  simp only [Language.perform, language, applies, Operator.apply, StackAction.add, bind,
    EStateM.bind, popPair_holding, Value.toText, checked, push_holding, if_pos room]
  rfl

end operators

/-! ### Texts are cut and joined -/

section texts

variable {text : String}

theorem difference_number_text (number : Binary64) :
    (Value.number number).difference (.text text) =
      .text (.ofList (text.toList.drop (cutPoint number text.length))) := by
  rw [Value.difference, ← String.toList_copy_drop, String.ofList_toList]

theorem difference_text_number (number : Binary64) :
    (Value.text text).difference (.number number) =
      .text (.ofList (text.toList.take
        (cutPoint (Binary64.ofNat text.length - number) text.length))) := by
  rw [Value.difference, ← String.toList_copy_take, String.ofList_toList]

end texts

/--
With a text of less than `2 ^ 29` characters on a stack that has room for the result: for a whole
number up to the length, the text less what is left of its length by this number has as many
characters of the text, those in front, and the number less the text has the others; joined, they
are the text. A number above the length leaves the empty text on either side, and a negative number
the whole text. The numbers that count characters are exact, and every larger whole number is above
the length after rounding as well.
-/
theorem cuts_rejoin (machine : Machine Token Stack) (values : List Value) (text : String)
    (room : values.length < machine.state.capacity) (short : text.length < maxTextLength) :
    let yields (symbol : Char) (operands : List Value) (result : String) :=
      (language .standard).perform (.operator symbol) (machine.holding (values ++ operands)) =
        (.ok .proceed, machine.holding (values ++ [.text result]))
    (∀ count ≤ text.length,
      let front := String.ofList (text.toList.take count)
      let rest := String.ofList (text.toList.drop count)
      yields '-' [.text text, .number (.ofNat (text.length - count))] front ∧
        yields '-' [.number (.ofNat count), .text text] rest ∧
        yields '+' [.text front, .text rest] text) ∧
      (∀ number : Binary64, (Binary64.ofNat text.length).lt number = true →
        yields '-' [.number number, .text text] "" ∧
          yields '-' [.text text, .number number] "") ∧
      (∀ number : Binary64, number.lt 0 = true →
        yields '-' [.number number, .text text] text ∧
          yields '-' [.text text, .number number] text) ∧
      (∀ count, text.length < count →
        (Binary64.ofNat text.length).lt (.ofNat count) = true) ∧
      ∀ count < Nat.pow 2 precision, ∃ magnitude,
        Binary64.ofNat count = .finite false magnitude ∧
          magnitude.units = count <<< unitExponent := by
  intro yields
  have counted : maxTextLength ≤ Nat.pow 2 precision := by decide
  have small : text.length ≤ Nat.pow 2 precision := by omega
  have length : text.toList.length = text.length := String.length_toList
  have subtracts (left right : Value) (result : String)
      (difference : left.difference right = .text result) : yields '-' [left, right] result := by
    have performs := perform_subtract room left right
    rwa [difference] at performs
  refine ⟨?_, ?_, ?_, ?_, ?_⟩
  · intro count le front rest
    have joined : front ++ rest = text := by
      rw [← String.ofList_append, List.take_append_drop, String.ofList_toList]
    refine ⟨?_, ?_, ?_⟩
    · apply subtracts
      rw [difference_text_number, Binary64.ofNat_sub_ofNat small (Nat.sub_le _ _),
        Nat.sub_sub_self le, cutPoint_ofNat small le]
    · apply subtracts
      rw [difference_number_text, cutPoint_ofNat small le]
    · have joins := perform_add_texts room front rest (by rw [joined]; exact Nat.le_of_lt short)
      rwa [joined] at joins
  · intro number above
    constructor
    · apply subtracts
      rw [difference_number_text, cutPoint_of_lt small above, ← length, List.drop_length]
    · apply subtracts
      rw [difference_text_number, cutPoint_sub_of_lt small above, List.take_zero]
  · intro number negative
    constructor
    · apply subtracts
      rw [difference_number_text, cutPoint_of_lt_zero negative, List.drop_zero,
        String.ofList_toList]
    · apply subtracts
      rw [difference_text_number, cutPoint_sub_of_lt_zero small negative, ← length,
        List.take_length, String.ofList_toList]
  · intro count above
    exact Binary64.ofNat_lt_ofNat (by omega) above
  · intro count below
    exact Binary64.exists_ofNat (Nat.le_of_lt below)

/--
A text of four characters, one of which takes four bytes, is cut behind this one; and it is cut by
more than its length, by an infinity and by less than nothing.
-/
theorem cuts_rejoin_of_rook :
    let machine : Machine Token Stack :=
      { program := { tokens := #[] }, state := { capacity := 2 }, random := .zeros }
    let yields (operands : List Value) (result : String) :=
      (language .standard).perform (.operator '-') (machine.holding (.number 7 :: operands)) =
        (.ok .proceed, machine.holding [.number 7, .text result])
    "🨂žab".length < maxTextLength ∧ yields [.text "🨂žab", .number 3] "🨂" ∧
      yields [.number 1, .text "🨂žab"] "žab" ∧ yields [.text "🨂žab", .number 5] "" ∧
      yields [.number (.infinite false), .text "🨂žab"] "" ∧
      yields [.text "🨂žab", .number (-1)] "🨂žab" := by
  intro machine yields
  have short : "🨂žab".length < maxTextLength := by decide
  obtain ⟨cuts, above, negative, larger, _⟩ :=
    cuts_rejoin machine [.number 7] "🨂žab" (by decide) short
  obtain ⟨front, rest, _⟩ := cuts 1 (by decide)
  exact ⟨short, front, rest, (above 5 (larger 5 (by decide))).2,
    (above (.infinite false) (by decide +kernel)).1, (negative (-1) (by decide +kernel)).2⟩

end ShortO

end Esoterica
