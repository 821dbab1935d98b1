import Esoterica.Binary64.Reading
import Esoterica.Proofs.Binary64.Exactness
import Esoterica.Proofs.Scanning

/-!
# Literals

A decimal without a sign is written `D+ (. D*)? E?` or `. D+ E?`, where `D` is a digit and `E` is an
exponent `[eE] [+-]? D+`. Such a literal is accepted as a whole, and so is its normal form, which
has digits on both sides of the point and denotes the same number. Where the exponent is below 65536
in absolute value, this is the number nearest to the decimal that is written.
-/

namespace Esoterica

theorem isBlank_of_isDigit {c : Char} (digit : c.isDigit = true) : isBlank c = false := by
  rcases Char.isDigit_iff_toNat.mp digit with ⟨lower, upper⟩
  exact isBlank_of_visible (Nat.le_trans (by decide) lower) (Nat.le_trans upper (by decide))

namespace Decimal

/-- A digit or a point. -/
def IsPlain (c : Char) : Prop :=
  c.isDigit = true ∨ c = '.'

instance (c : Char) : Decidable (IsPlain c) :=
  inferInstanceAs (Decidable (_ ∨ _))

theorem IsPlain.isBlank_eq_false {c : Char} (plain : IsPlain c) : isBlank c = false := by
  rcases plain with digit | rfl
  · exact isBlank_of_isDigit digit
  · decide

theorem IsPlain.ne {c other : Char} (plain : IsPlain c) (letter : ¬ IsPlain other) : c ≠ other := by
  rintro rfl
  exact letter plain

section splitting

variable {digits sign : List Char}

theorem splitDigits_append (areDigits : ∀ c ∈ digits, c.isDigit = true) (rest : List Char) :
    splitDigits (digits ++ rest) = (digits ++ (splitDigits rest).1, (splitDigits rest).2) := by
  simp only [splitDigits, List.takeWhile_append_of_pos areDigits,
    List.dropWhile_append_of_pos areDigits]

theorem splitDigits_eq (areDigits : ∀ c ∈ digits, c.isDigit = true) :
    splitDigits digits = (digits, []) := by
  simpa [splitDigits] using splitDigits_append areDigits []

theorem append_splitDigits (text : List Char) :
    (splitDigits text).1 ++ (splitDigits text).2 = text :=
  List.takeWhile_append_dropWhile

theorem isDigit_of_mem_splitDigits (text : List Char) :
    ∀ c ∈ (splitDigits text).1, c.isDigit = true :=
  List.all_eq_true.mp List.all_takeWhile

theorem splitDigits_suffix (text : List Char) : (splitDigits text).2 <:+ text :=
  List.dropWhile_suffix _

/-- Nothing, a plus or a minus. -/
def IsSign (sign : List Char) : Prop :=
  sign = [] ∨ sign = ['+'] ∨ sign = ['-']

theorem splitSign_append (isSign : IsSign sign) {first : Char} (plain : IsPlain first)
    (rest : List Char) :
    splitSign (sign ++ first :: rest) = (sign == ['-'], first :: rest) := by
  rcases isSign with rfl | rfl | rfl
  · simp only [List.nil_append, splitSign]
    split
    case h_1 same => exact absurd (List.cons.inj same).1 (plain.ne (by decide))
    case h_2 same => exact absurd (List.cons.inj same).1 (plain.ne (by decide))
    case h_3 => rfl
  · rfl
  · rfl

theorem splitSign_of_head? {text : List Char} (noMinus : text.head? ≠ some '-')
    (noPlus : text.head? ≠ some '+') : splitSign text = (false, text) := by
  unfold splitSign
  split
  · exact absurd rfl noMinus
  · exact absurd rfl noPlus
  · rfl

theorem exists_of_splitSign (text : List Char) :
    ∃ sign, IsSign sign ∧ text = sign ++ (splitSign text).2 ∧
      (splitSign text).1 = (sign == ['-']) := by
  unfold splitSign
  split
  · exact ⟨['-'], .inr (.inr rfl), rfl, rfl⟩
  · exact ⟨['+'], .inr (.inl rfl), rfl, rfl⟩
  · exact ⟨[], .inl rfl, rfl, rfl⟩

end splitting

/-! ### The values of digits -/

theorem ofDigitChars_eq (digits : List Char) :
    ofDigitChars digits = Nat.ofDigitChars 10 digits 0 := by
  rw [ofDigitChars, join_eq_horner, horner, List.foldr_map, List.foldr_reverse]
  simp only [Nat.ofDigitChars, digitValue, Nat.add_comm]

theorem le_ofDigitChars (digits : List Char) (start : Nat) :
    start ≤ Nat.ofDigitChars 10 digits start := by
  rw [Nat.ofDigitChars_eq_ofDigitChars_zero]
  exact Nat.le_add_right_of_le (Nat.le_mul_of_pos_left _ (Nat.pow_pos (by decide)))

/-- Digits are below the power of ten that follows them. -/
theorem ofDigitChars_lt {digits : List Char} (areDigits : ∀ c ∈ digits, c.isDigit = true)
    (start : Nat) : Nat.ofDigitChars 10 digits start < (start + 1) * Nat.pow 10 digits.length := by
  induction digits generalizing start with
  | nil => simp
  | cons digit rest ih =>
      rcases List.forall_mem_cons.mp areDigits with ⟨first, others⟩
      have upper := (Char.isDigit_iff_toNat.mp first).2
      have next : 10 * start + (digit.toNat - '0'.toNat) + 1 ≤ (start + 1) * 10 := by
        have zero : '0'.toNat = 48 := rfl
        have nine : '9'.toNat = 57 := rfl
        omega
      rw [Nat.ofDigitChars_cons]
      calc Nat.ofDigitChars 10 rest (10 * start + (digit.toNat - '0'.toNat))
          < (10 * start + (digit.toNat - '0'.toNat) + 1) * Nat.pow 10 rest.length := ih others _
        _ ≤ (start + 1) * 10 * Nat.pow 10 rest.length := Nat.mul_le_mul_right _ next
        _ = (start + 1) * Nat.pow 10 (digit :: rest).length := by
            rw [Nat.mul_assoc, Nat.mul_comm 10]
            rfl

/-- Exponents below 65536 are read as they are. -/
theorem ofExponentChars_eq {digits : List Char}
    (small : Nat.ofDigitChars 10 digits 0 < 0x10000) :
    ofExponentChars digits = Nat.ofDigitChars 10 digits 0 := by
  unfold ofExponentChars
  generalize 0 = start at small ⊢
  induction digits generalizing start with
  | nil => rfl
  | cons digit rest ih =>
      have start_lt := Nat.lt_of_le_of_lt (le_ofDigitChars (digit :: rest) start) small
      rw [List.foldl_cons, if_pos start_lt]
      exact ih _ small

/-! ### Exponents -/

/-- An exponent as it is written: `[eE] [+-]? D+`. -/
structure Exponent where
  mark : Char
  sign : List Char
  digits : List Char
  isMark : mark = 'e' ∨ mark = 'E'
  isSign : IsSign sign
  digits_ne_nil : digits ≠ []
  isDigit_of_mem : ∀ c ∈ digits, c.isDigit = true

namespace Exponent

def text (exponent : Exponent) : List Char :=
  exponent.mark :: (exponent.sign ++ exponent.digits)

/-- The exponent as it is read. -/
def read (exponent : Exponent) : Int :=
  Binary64.signed (exponent.sign == ['-']) (ofExponentChars exponent.digits)

/-- The exponent that is written. -/
def value (exponent : Exponent) : Int :=
  Binary64.signed (exponent.sign == ['-']) (Nat.ofDigitChars 10 exponent.digits 0)

theorem read_eq_value {exponent : Exponent} (small : exponent.value.natAbs < 0x10000) :
    exponent.read = exponent.value := by
  have digits_lt : Nat.ofDigitChars 10 exponent.digits 0 < 0x10000 := by
    unfold value Binary64.signed at small
    split at small <;> omega
  rw [read, value, ofExponentChars_eq digits_lt]

/-- The digits of the exponent go on as far as they can. -/
theorem splitExponent_append (exponent : Exponent) (rest : List Char) :
    splitExponent (exponent.text ++ rest) =
      (Binary64.signed (exponent.sign == ['-'])
        (ofExponentChars (exponent.digits ++ (splitDigits rest).1)), (splitDigits rest).2) := by
  rcases exponent with ⟨mark, sign, digits, isMark, isSign, nonempty, areDigits⟩
  rcases List.exists_cons_of_ne_nil nonempty with ⟨first, more, rfl⟩
  have plain : IsPlain first := .inl (areDigits first List.mem_cons_self)
  have signed := splitSign_append isSign plain (more ++ rest)
  have splits := splitDigits_append areDigits rest
  simp only [text, List.cons_append, List.append_assoc, splitExponent, if_pos isMark, signed]
  rw [List.cons_append] at splits
  rw [splits]
  rfl

theorem splitExponent_text (exponent : Exponent) :
    splitExponent exponent.text = (exponent.read, []) := by
  have splits := exponent.splitExponent_append []
  rw [List.append_nil] at splits
  rw [splits]
  simp [splitDigits, read]

end Exponent

/-- What is written of an exponent, if there is one. -/
def exponentText : Option Exponent → List Char
  | none => []
  | some exponent => exponent.text

def exponentRead : Option Exponent → Int
  | none => 0
  | some exponent => exponent.read

/-- What is read as an exponent is one, or nothing. -/
theorem exists_of_splitExponent (text : List Char) :
    ∃ exponent?, text = exponentText exponent? ++ (splitExponent text).2 ∧
      (splitExponent text).1 = exponentRead exponent? := by
  rcases text with _ | ⟨mark, rest⟩
  · exact ⟨none, rfl, rfl⟩
  · by_cases isMark : mark = 'e' ∨ mark = 'E'
    · rcases exists_of_splitSign rest with ⟨sign, isSign, front, negative⟩
      have digits := append_splitDigits (splitSign rest).2
      simp only [splitExponent, if_pos isMark]
      split
      case isTrue => exact ⟨none, rfl, rfl⟩
      case isFalse nonempty =>
        refine ⟨some ⟨mark, sign, _, isMark, isSign, mt List.isEmpty_iff.mpr nonempty,
          isDigit_of_mem_splitDigits _⟩, ?_, ?_⟩
        · simp only [exponentText, Exponent.text, List.cons_append, List.append_assoc]
          rw [digits, ← front]
        · rw [negative]
          rfl
    · simp only [splitExponent, if_neg isMark]
      exact ⟨none, rfl, rfl⟩

theorem splitExponent_suffix (text : List Char) : (splitExponent text).2 <:+ text := by
  rcases exists_of_splitExponent text with ⟨exponent?, front, -⟩
  exact ⟨_, front.symm⟩

theorem splitExponent_exponentText (exponent? : Option Exponent) :
    splitExponent (exponentText exponent?) = (exponentRead exponent?, []) := by
  cases exponent? with
  | none => rfl
  | some exponent => exact exponent.splitExponent_text

/-! ### Literals -/

/-- A point and the digits behind it, if there is a point. -/
def pointed : Option (List Char) → List Char
  | none => []
  | some fraction => '.' :: fraction

/-- What is read as a fraction stands behind a point, or is nothing. -/
theorem exists_of_splitFraction (text : List Char) :
    ∃ fraction?, text = pointed fraction? ++ (splitFraction text).2 ∧
      (splitFraction text).1 = fraction?.getD [] ∧
      ∀ c ∈ (splitFraction text).1, c.isDigit = true := by
  unfold splitFraction
  split
  case h_1 behind =>
    refine ⟨some (splitDigits behind).1, ?_, rfl, isDigit_of_mem_splitDigits behind⟩
    rw [pointed, List.cons_append, append_splitDigits]
  case h_2 => exact ⟨none, rfl, rfl, by simp⟩

/-- A decimal without a sign as it is written: `D+ (. D*)? E?` or `. D+ E?`. -/
structure Literal where
  whole : List Char
  fraction? : Option (List Char)
  exponent? : Option Exponent
  isDigit_of_mem_whole : ∀ c ∈ whole, c.isDigit = true
  isDigit_of_mem_fraction : ∀ c ∈ fraction?.getD [], c.isDigit = true
  some_digit : whole ≠ [] ∨ fraction?.getD [] ≠ []

/-- A text that goes on neither with a digit nor with a point. -/
def EndsMantissa (text : List Char) : Prop :=
  ∀ c, text.head? = some c → c.isDigit = false ∧ c ≠ '.'

theorem splitDigits_of_endsMantissa {text : List Char} (ends : EndsMantissa text) :
    splitDigits text = ([], text) := by
  cases text with
  | nil => rfl
  | cons c rest => simp [splitDigits, (ends c rfl).1]

theorem splitFraction_of_head? {text : List Char} (noPoint : text.head? ≠ some '.') :
    splitFraction text = ([], text) := by
  unfold splitFraction
  split
  · exact absurd rfl noPoint
  · rfl

theorem splitFraction_of_endsMantissa {text : List Char} (ends : EndsMantissa text) :
    splitFraction text = ([], text) :=
  splitFraction_of_head? fun point => (ends '.' point).2 rfl

theorem endsMantissa_exponentText (exponent : Exponent) (rest : List Char) :
    EndsMantissa (exponent.text ++ rest) := by
  intro c isFirst
  cases isFirst
  rcases exponent.isMark with isMark | isMark <;> rw [isMark] <;> decide

/-- There are digits before the point or behind it. -/
theorem isEmpty_and_isEmpty_iff {whole fraction : List Char} :
    (whole.isEmpty && fraction.isEmpty) = false ↔ whole ≠ [] ∨ fraction ≠ [] := by
  simp [Classical.or_iff_not_imp_left]

theorem splitNumeral?_eq_none_iff {text : List Char} :
    splitNumeral? text = none ↔
      (splitDigits text).1 = [] ∧ (splitFraction (splitDigits text).2).1 = [] := by
  simp [splitNumeral?]

namespace Literal

variable {literal : Literal}

def fraction (literal : Literal) : List Char :=
  literal.fraction?.getD []

def text (literal : Literal) : List Char :=
  literal.whole ++ (pointed literal.fraction? ++ exponentText literal.exponent?)

/-- The decimal as it is read. -/
def decimal (literal : Literal) : Decimal :=
  ⟨ofDigitChars (literal.whole ++ literal.fraction),
    exponentRead literal.exponent? - literal.fraction.length⟩

/-- Where the digits end, the mantissa is read as a whole. -/
theorem splitNumeral?_of_endsMantissa (literal : Literal) {rest : List Char}
    (ends : EndsMantissa rest) :
    splitNumeral? (literal.whole ++ (pointed literal.fraction? ++ rest)) =
      some (⟨ofDigitChars (literal.whole ++ literal.fraction),
        (splitExponent rest).1 - literal.fraction.length⟩, (splitExponent rest).2) := by
  rcases literal with ⟨whole, fraction?, exponent?, wholeDigits, fractionDigits, someDigit⟩
  have beforePoint : splitDigits (pointed fraction? ++ rest) = ([], pointed fraction? ++ rest) := by
    cases fraction? with
    | none => exact splitDigits_of_endsMantissa ends
    | some fraction => simp [pointed, splitDigits]
  have behindPoint : splitFraction (pointed fraction? ++ rest) = (fraction?.getD [], rest) := by
    cases fraction? with
    | none => exact splitFraction_of_endsMantissa ends
    | some fraction =>
        change splitDigits ((some fraction).getD [] ++ rest) = _
        rw [splitDigits_append fractionDigits, splitDigits_of_endsMantissa ends, List.append_nil]
  have notEmpty := isEmpty_and_isEmpty_iff.mpr someDigit
  simp only [splitNumeral?, splitDigits_append wholeDigits, beforePoint, behindPoint,
    List.append_nil, notEmpty]
  rfl

/-- A literal is read as a whole. -/
theorem splitNumeral?_text (literal : Literal) :
    splitNumeral? literal.text = some (literal.decimal, []) := by
  have ends : EndsMantissa (exponentText literal.exponent?) := by
    cases literal.exponent? with
    | none => exact fun c isFirst => nomatch isFirst
    | some exponent =>
        have ends := endsMantissa_exponentText exponent []
        rwa [List.append_nil] at ends
  rw [text, splitNumeral?_of_endsMantissa literal ends, splitExponent_exponentText]
  rfl

/-- A literal starts with a digit or a point. -/
theorem exists_text_eq_cons (literal : Literal) :
    ∃ first rest, literal.text = first :: rest ∧ IsPlain first := by
  rcases literal with ⟨whole, fraction?, exponent?, wholeDigits, fractionDigits, someDigit⟩
  rcases whole with _ | ⟨first, more⟩
  · rcases fraction? with _ | fraction
    · simp at someDigit
    · exact ⟨'.', _, rfl, .inr rfl⟩
  · exact ⟨first, _, rfl, .inl (wholeDigits first List.mem_cons_self)⟩

theorem splitSign_text (literal : Literal) (rest : List Char) :
    splitSign (literal.text ++ rest) = (false, literal.text ++ rest) := by
  rcases literal.exists_text_eq_cons with ⟨first, more, starts, plain⟩
  rw [starts]
  exact splitSign_append (.inl rfl) plain (more ++ rest)

/-- The reader of whole texts accepts every literal. -/
theorem read?_text (literal : Literal) :
    Binary64.read? literal.text = some (literal.decimal.toBinary64 false) := by
  have unsigned := literal.splitSign_text []
  rw [List.append_nil] at unsigned
  simp only [Binary64.read?, unsigned, literal.splitNumeral?_text]

/-! ### The value of a literal -/

/-- The decimal that is written. -/
def value (literal : Literal) : Decimal :=
  ⟨Nat.ofDigitChars 10 (literal.whole ++ literal.fraction) 0,
    (literal.exponent?.map Exponent.value).getD 0 - literal.fraction.length⟩

/-- An exponent that is below 65536 in absolute value. -/
def HasSmallExponent (literal : Literal) : Prop :=
  ∀ exponent ∈ literal.exponent?, exponent.value.natAbs < 0x10000

theorem decimal_eq_value (small : literal.HasSmallExponent) : literal.decimal = literal.value := by
  have exponents : exponentRead literal.exponent? =
      (literal.exponent?.map Exponent.value).getD 0 := by
    unfold HasSmallExponent at small
    cases given : literal.exponent? with
    | none => rfl
    | some exponent => exact Exponent.read_eq_value (small exponent given)
  rw [decimal, value, ofDigitChars_eq, exponents]

/-- A short literal has no room for an exponent of more than four digits. -/
theorem hasSmallExponent_of_length (short : literal.text.length ≤ 6) :
    literal.HasSmallExponent := by
  intro exponent isExponent
  rcases literal with ⟨whole, fraction?, exponent?, wholeDigits, fractionDigits, someDigit⟩
  cases isExponent
  have fewDigits : exponent.digits.length ≤ 4 := by
    have positive : 0 < whole.length + (pointed fraction?).length := by
      rcases someDigit with isWhole | isFraction
      · exact Nat.add_pos_left (List.length_pos_iff.mpr isWhole) _
      · cases fraction? with
        | none => exact absurd rfl isFraction
        | some fraction => exact Nat.add_pos_right _ (Nat.succ_pos _)
    simp only [Literal.text, exponentText, Exponent.text, List.length_append, List.length_cons]
      at short
    omega
  have small : Nat.ofDigitChars 10 exponent.digits 0 < 0x10000 :=
    calc Nat.ofDigitChars 10 exponent.digits 0
        < (0 + 1) * Nat.pow 10 exponent.digits.length := ofDigitChars_lt exponent.isDigit_of_mem 0
      _ ≤ (0 + 1) * Nat.pow 10 4 :=
          Nat.mul_le_mul_left _ (Nat.pow_le_pow_right (by decide) fewDigits)
      _ < 0x10000 := by decide
  rw [Exponent.value, Binary64.signed]
  split <;> omega

/-! ### The normal form -/

/-- The digits, or a zero where there are none. -/
def orZero : List Char → List Char
  | [] => ['0']
  | first :: rest => first :: rest

theorem orZero_ne_nil (digits : List Char) : orZero digits ≠ [] := by
  cases digits with
  | nil | cons => simp [orZero]

theorem isDigit_of_mem_orZero {digits : List Char} (areDigits : ∀ c ∈ digits, c.isDigit = true) :
    ∀ c ∈ orZero digits, c.isDigit = true := by
  cases digits with
  | nil => simp [orZero]
  | cons => exact areDigits

/-- The literal with digits on both sides of a point. -/
def normal (literal : Literal) : Literal where
  whole := orZero literal.whole
  fraction? := some (orZero literal.fraction)
  exponent? := literal.exponent?
  isDigit_of_mem_whole := isDigit_of_mem_orZero literal.isDigit_of_mem_whole
  isDigit_of_mem_fraction := isDigit_of_mem_orZero literal.isDigit_of_mem_fraction
  some_digit := .inl (orZero_ne_nil _)

/-- A zero in front of the digits makes no difference. -/
theorem ofDigitChars_orZero_append (digits rest : List Char) :
    ofDigitChars (orZero digits ++ rest) = ofDigitChars (digits ++ rest) := by
  rw [ofDigitChars_eq, ofDigitChars_eq]
  cases digits with
  | nil | cons => rfl

/-- The normal form denotes the same magnitude. -/
theorem toMagnitude?_normal (literal : Literal) :
    literal.normal.decimal.toMagnitude? = literal.decimal.toMagnitude? := by
  have digits : literal.normal.decimal =
      ⟨ofDigitChars (literal.whole ++ orZero literal.fraction),
        exponentRead literal.exponent? - (orZero literal.fraction).length⟩ :=
    congrArg (Decimal.mk · _) (ofDigitChars_orZero_append _ _)
  rw [digits, decimal]
  generalize exponentRead literal.exponent? = exponent
  cases literal.fraction with
  | nil =>
      have tenfold : ofDigitChars (literal.whole ++ ['0']) =
          ofDigitChars (literal.whole ++ []) * Nat.pow 10 1 := by
        rw [ofDigitChars_eq, ofDigitChars_eq, Nat.ofDigitChars_append, List.append_nil]
        exact Nat.mul_comm _ _
      change toMagnitude? ⟨ofDigitChars (literal.whole ++ ['0']), exponent - 1⟩ =
        toMagnitude? ⟨ofDigitChars (literal.whole ++ []), exponent - 0⟩
      rw [tenfold, toMagnitude?_mul_pow]
      congr 2
      omega
  | cons => rfl

/-- The normal form is accepted too, with the same number. -/
theorem read?_normal (literal : Literal) :
    Binary64.read? literal.normal.text = some (literal.decimal.toBinary64 false) := by
  rw [read?_text, toBinary64, toMagnitude?_normal]
  rfl

end Literal

/-- What follows the digits of a text and the fraction behind them. -/
def behindMantissa (text : List Char) : List Char :=
  (splitFraction (splitDigits text).2).2

/-- What is read of a numeral is a literal, and its exponent is what follows the mantissa. -/
theorem exists_of_splitNumeral? {text rest : List Char} {decimal : Decimal}
    (splits : splitNumeral? text = some (decimal, rest)) :
    ∃ literal : Literal, text = literal.text ++ rest ∧ decimal = literal.decimal ∧
      behindMantissa text = exponentText literal.exponent? ++ rest ∧
      rest = (splitExponent (behindMantissa text)).2 := by
  rcases exists_of_splitFraction (splitDigits text).2 with
    ⟨fraction?, fractionFront, fraction, fractionDigits⟩
  rcases exists_of_splitExponent (behindMantissa text) with ⟨exponent?, exponentFront, exponent⟩
  rw [behindMantissa] at exponentFront exponent ⊢
  simp only [splitNumeral?, fraction, exponent] at splits fractionDigits
  split at splits
  case isTrue => cases splits
  case isFalse notEmpty =>
    cases splits
    have someDigit := isEmpty_and_isEmpty_iff.mp (Bool.eq_false_iff.mpr notEmpty)
    refine ⟨⟨(splitDigits text).1, fraction?, exponent?, isDigit_of_mem_splitDigits text,
      fractionDigits, someDigit⟩, ?_, rfl, exponentFront, rfl⟩
    rw [Literal.text, List.append_assoc, List.append_assoc, ← exponentFront, ← fractionFront,
      append_splitDigits]

end Decimal

end Esoterica
