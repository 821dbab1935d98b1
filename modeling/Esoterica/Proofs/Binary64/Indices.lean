import Esoterica.Proofs.Binary64.Literals
import Esoterica.Proofs.Binary64.WholeNumbers
import Esoterica.Proofs.Text.Bytes

/-!
# Numbers found by byte positions

The number at the start of a text can also be found in the bytes of the text: the ends of its
digits, of its point and of its exponent are positions, and the literal that is read is put together
from the slices between them. Some positions are behind the number, where the digits of a fraction
or of an exponent could stand, and anything may follow them. Every position is checked here, and no
check fails: before each of them there are only characters of one byte.
-/

namespace Esoterica

/-! ### Numbers take one byte for each character -/

theorem utf8Size_of_isDigit {c : Char} (digit : c.isDigit = true) : c.utf8Size = 1 := by
  rcases Char.isDigit_iff_toNat.mp digit with ⟨-, upper⟩
  apply Char.utf8Size_eq_one_iff.mpr
  exact UInt32.le_iff_toNat_le.mpr (Nat.le_trans upper (by decide))

namespace Decimal

theorem IsSign.utf8Size {sign : List Char} (isSign : IsSign sign) : ∀ c ∈ sign, c.utf8Size = 1 := by
  rcases isSign with rfl | rfl | rfl
  · simp
  · simp [Char.utf8Size]
  · simp [Char.utf8Size]

theorem Exponent.utf8Size_text (exponent : Exponent) : ∀ c ∈ exponent.text, c.utf8Size = 1 := by
  have mark : exponent.mark.utf8Size = 1 := by
    rcases exponent.isMark with isMark | isMark <;> rw [isMark] <;> decide
  refine List.forall_mem_cons.mpr ⟨mark, List.forall_mem_append.mpr ⟨exponent.isSign.utf8Size, ?_⟩⟩
  exact fun c mem => utf8Size_of_isDigit (exponent.isDigit_of_mem c mem)

theorem Literal.utf8Size_text (literal : Literal) : ∀ c ∈ literal.text, c.utf8Size = 1 := by
  rcases literal with ⟨whole, fraction?, exponent?, wholeDigits, fractionDigits, someDigit⟩
  refine List.forall_mem_append.mpr ⟨?_, List.forall_mem_append.mpr ⟨?_, ?_⟩⟩
  · exact fun c mem => utf8Size_of_isDigit (wholeDigits c mem)
  · cases fraction? with
    | none => simp [pointed]
    | some fraction =>
        refine List.forall_mem_cons.mpr ⟨by decide, ?_⟩
        exact fun c mem => utf8Size_of_isDigit (fractionDigits c mem)
  · cases exponent? with
    | none => simp [exponentText]
    | some exponent => exact exponent.utf8Size_text

end Decimal

namespace Binary64

open Decimal

namespace Indexed

def isDigitByte (byte : UInt8) : Bool :=
  '0'.toUInt8 ≤ byte && byte ≤ '9'.toUInt8

/-- How many digits there are from a position on. -/
def digitsFrom? (bytes : List UInt8) (start : Nat) : Option Nat :=
  (bytesFrom? bytes start).map fun rest => (rest.takeWhile isDigitByte).length

/-- The sign as a factor, and the text behind it. -/
def splitSign? (text : List Char) : Option (Binary64 × List Char) :=
  let first := (encode text)[0]?
  if first = some '-'.toUInt8 then (splitAt? text 1).map fun parts => (-1, parts.2)
  else if first = some '+'.toUInt8 then (splitAt? text 1).map fun parts => (1, parts.2)
  else some (1, text)

/-- The end of the digits and of the point among them; nothing is found if there is no digit. -/
def mantissaEnd? (bytes : List UInt8) : Option (Option Nat) := do
  let whole ← digitsFrom? bytes 0
  let (stop, fraction) ←
    if bytes[whole]? = some '.'.toUInt8 then
      (digitsFrom? bytes (whole + 1)).map fun fraction =>
        (if 0 < whole ∨ 0 < fraction then whole + (1 + fraction) else whole, fraction)
    else
      some (whole, 0)
  return if whole = 0 ∧ fraction = 0 then none else some stop

/-- The end of the exponent behind a mantissa; without digits it is the end of the mantissa. -/
def numberEnd? (bytes : List UInt8) (mantissaEnd : Nat) : Option Nat :=
  let mark := bytes[mantissaEnd]?
  if mark = some 'e'.toUInt8 ∨ mark = some 'E'.toUInt8 then
    let sign := bytes[mantissaEnd + 1]?
    let start :=
      if sign = some '+'.toUInt8 ∨ sign = some '-'.toUInt8 then mantissaEnd + 1 + 1
      else mantissaEnd + 1
    (digitsFrom? bytes start).map fun digits => if 0 < digits then start + digits else mantissaEnd
  else
    some mantissaEnd

/-- The literal between the positions, with digits on both sides of its point. -/
def normalized? (text : List Char) (mantissaEnd stop : Nat) : Option (List Char) := do
  let mantissa ← slice? text 0 mantissaEnd
  let whole := mantissa.takeWhile (· != '.')
  let fraction := (mantissa.dropWhile (· != '.')).drop 1
  let exponent ← slice? text mantissaEnd stop
  return Literal.orZero whole ++ '.' :: (Literal.orZero fraction ++ exponent)

/-- The literal that is read of a text; nothing is found if there is no digit. -/
def literal? (text : List Char) : Option (Option (List Char)) := do
  let bytes := encode text
  match ← mantissaEnd? bytes with
  | none => return none
  | some mantissaEnd =>
    let stop ← numberEnd? bytes mantissaEnd
    let literal ← normalized? text mantissaEnd stop
    return some literal

/-- The longest number at the start of a text, unless the text is cut at a wrong position. -/
def readStart? (text : List Char) : Option Binary64 := do
  let (sign, unsigned) ← splitSign? (text.dropWhile isBlank)
  if "Infinity".toList.isPrefixOf unsigned then
    return sign * infinite false
  else
    match ← literal? unsigned with
    | none => return nan
    | some literal => return ((read? literal).map (sign * ·)).getD nan

variable {text front rest : List Char}

/-! ### Digits -/

theorem isDigitByte_of_single {c : Char} (single : c.utf8Size = 1) :
    isDigitByte c.toUInt8 = c.isDigit := by
  have byte := (toNat_toUInt8_of_single single).1
  rw [Bool.eq_iff_iff, Char.isDigit_iff_toNat]
  simp only [isDigitByte, Bool.and_eq_true, decide_eq_true_eq, UInt8.le_iff_toNat_le, byte]
  rfl

theorem length_takeWhile_encode (text : List Char) :
    ((encode text).takeWhile isDigitByte).length = (splitDigits text).1.length := by
  induction text with
  | nil => rfl
  | cons c rest ih =>
      rw [encode_cons, splitDigits]
      by_cases single : c.utf8Size = 1
      · rw [utf8EncodeChar_of_single single, List.singleton_append, List.takeWhile_cons,
          List.takeWhile_cons, isDigitByte_of_single single]
        split
        · exact congrArg (· + 1) ih
        · rfl
      · rcases exists_utf8EncodeChar_of_wide single with ⟨first, more, encodes, high⟩
        have noDigitByte : isDigitByte first = false := by
          simp only [isDigitByte, Bool.and_eq_false_iff, decide_eq_false_iff_not,
            UInt8.le_iff_toNat_le]
          exact .inr fun low => absurd (Nat.le_trans high low) (by decide)
        have noDigit : c.isDigit = false :=
          Bool.eq_false_iff.mpr fun digit => single (utf8Size_of_isDigit digit)
        rw [encodes, List.cons_append, List.takeWhile_cons, List.takeWhile_cons, noDigitByte,
          noDigit]
        rfl

/-- Behind characters of one byte, digits are counted as they stand in the text. -/
theorem digitsFrom?_encode (single : ∀ c ∈ front, c.utf8Size = 1) (rest : List Char) :
    digitsFrom? (encode (front ++ rest)) front.length = some (splitDigits rest).1.length := by
  rw [digitsFrom?, encode_append, ← length_encode single, bytesFrom?_append, Option.map_some,
    length_takeWhile_encode]

/-! ### Signs -/

/-- The factor for a sign. -/
def signFactor (negative : Bool) : Binary64 :=
  if negative then -1 else 1

theorem splitSign?_eq (text : List Char) :
    splitSign? text = some (signFactor (splitSign text).1, (splitSign text).2) := by
  have first {c : Char} (single : c.utf8Size = 1) :
      (encode text)[0]? = some c.toUInt8 ↔ text.head? = some c := by
    rw [← List.head?_eq_getElem?]
    exact head?_encode_iff single
  have behind (c : Char) (single : c.utf8Size = 1) (rest : List Char) :
      splitAt? (c :: rest) 1 = some ([c], rest) := by
    have splits := splitAt?_append [c] rest
    rwa [length_encode (by simpa using single)] at splits
  have isMinus := first (show '-'.utf8Size = 1 by decide)
  have isPlus := first (show '+'.utf8Size = 1 by decide)
  simp only [splitSign?, isMinus, isPlus]
  by_cases minus : text.head? = some '-'
  · rw [if_pos minus]
    rcases List.head?_eq_some_iff.mp minus with ⟨rest, rfl⟩
    rw [behind '-' (by decide)]
    rfl
  · by_cases plus : text.head? = some '+'
    · rw [if_neg minus, if_pos plus]
      rcases List.head?_eq_some_iff.mp plus with ⟨rest, rfl⟩
      rw [behind '+' (by decide)]
      rfl
    · rw [if_neg minus, if_neg plus, splitSign_of_head? minus plus]
      rfl

/-! ### The ends of the parts -/

/-- The end of the mantissa is found, unless it has no digit. -/
theorem mantissaEnd?_encode (text : List Char) :
    mantissaEnd? (encode text) =
      some (if (splitDigits text).1 = [] ∧ (splitFraction (splitDigits text).2).1 = [] then none
        else some (text.length - (behindMantissa text).length)) := by
  have wholeDigits := isDigit_of_mem_splitDigits text
  have digits := digitsFrom?_encode (List.forall_mem_nil _) text
  have parts := append_splitDigits text
  rw [List.nil_append, List.length_nil] at digits
  rw [behindMantissa]
  generalize (splitDigits text).1 = whole at wholeDigits digits parts ⊢
  generalize (splitDigits text).2 = behind at parts ⊢
  subst parts
  have single : ∀ c ∈ whole, c.utf8Size = 1 := fun c mem => utf8Size_of_isDigit (wholeDigits c mem)
  have point : (encode (whole ++ behind))[whole.length]? = some '.'.toUInt8 ↔
      behind.head? = some '.' :=
    getElem?_encode_iff single (by decide)
  simp only [mantissaEnd?, digits, Option.bind_eq_bind, Option.bind_some, point,
    ← List.length_eq_zero_iff]
  by_cases isPoint : behind.head? = some '.'
  · rcases List.head?_eq_some_iff.mp isPoint with ⟨rest, rfl⟩
    have pointSingle : ∀ c ∈ whole ++ ['.'], c.utf8Size = 1 :=
      List.forall_mem_append.mpr ⟨single, List.forall_mem_singleton.mpr (by decide)⟩
    have fraction := digitsFrom?_encode pointSingle rest
    rw [List.append_assoc, List.singleton_append, List.length_append, List.length_singleton]
      at fraction
    have lengths := congrArg List.length (append_splitDigits rest)
    rw [List.length_append] at lengths
    rw [if_pos isPoint, fraction, splitFraction, List.length_append, List.length_cons]
    change some (if _ then none else some _) = some _
    by_cases noDigit : whole.length = 0 ∧ (splitDigits rest).1.length = 0
    · rw [if_pos noDigit, if_pos noDigit]
    · rw [if_neg noDigit, if_neg noDigit]
      refine congrArg (some <| some ·) ((if_pos (by omega)).trans ?_)
      omega
  · rw [if_neg isPoint, splitFraction_of_head? isPoint, List.length_append, Nat.add_sub_cancel]
    simp only [List.length_nil, and_true]
    rfl

/-- Behind characters of one byte, a sign is found as it is split off. -/
theorem exists_signEnd (single : ∀ c ∈ front, c.utf8Size = 1) (rest : List Char) :
    let sign := (encode (front ++ rest))[front.length]?
    ∃ signText, IsSign signText ∧ rest = signText ++ (splitSign rest).2 ∧
      (if sign = some '+'.toUInt8 ∨ sign = some '-'.toUInt8 then front.length + 1
        else front.length) = (front ++ signText).length := by
  have isSign {c : Char} (narrow : c.utf8Size = 1) :
      (encode (front ++ rest))[front.length]? = some c.toUInt8 ↔ rest.head? = some c :=
    getElem?_encode_iff single narrow
  have isPlus := isSign (show '+'.utf8Size = 1 by decide)
  have isMinus := isSign (show '-'.utf8Size = 1 by decide)
  simp only [isPlus, isMinus, List.length_append]
  by_cases plus : rest.head? = some '+'
  · rcases List.head?_eq_some_iff.mp plus with ⟨behind, rfl⟩
    exact ⟨['+'], .inr (.inl rfl), rfl, if_pos (.inl plus)⟩
  · by_cases minus : rest.head? = some '-'
    · rcases List.head?_eq_some_iff.mp minus with ⟨behind, rfl⟩
      exact ⟨['-'], .inr (.inr rfl), rfl, if_pos (.inr minus)⟩
    · refine ⟨[], .inl rfl, ?_, if_neg (not_or.mpr ⟨plus, minus⟩)⟩
      rw [splitSign_of_head? minus plus]
      rfl

/-- The end of the number is found behind a mantissa, whatever follows. -/
theorem numberEnd?_encode (single : ∀ c ∈ front, c.utf8Size = 1) (rest : List Char) :
    numberEnd? (encode (front ++ rest)) front.length =
      some ((front ++ rest).length - (splitExponent rest).2.length) := by
  have isMark {c : Char} (narrow : c.utf8Size = 1) :
      (encode (front ++ rest))[front.length]? = some c.toUInt8 ↔ rest.head? = some c :=
    getElem?_encode_iff single narrow
  have isLower := isMark (show 'e'.utf8Size = 1 by decide)
  have isUpper := isMark (show 'E'.utf8Size = 1 by decide)
  simp only [numberEnd?, isLower, isUpper]
  rcases rest with _ | ⟨mark, behind⟩
  · simp [splitExponent]
  · simp only [List.head?_cons, Option.some.injEq, splitExponent]
    by_cases marked : mark = 'e' ∨ mark = 'E'
    · have markSingle : ∀ c ∈ front ++ [mark], c.utf8Size = 1 := by
        refine List.forall_mem_append.mpr ⟨single, List.forall_mem_singleton.mpr ?_⟩
        rcases marked with rfl | rfl <;> decide
      rcases exists_signEnd markSingle behind with ⟨sign, isSign, parts, start⟩
      have signSingle : ∀ c ∈ front ++ [mark] ++ sign, c.utf8Size = 1 :=
        List.forall_mem_append.mpr ⟨markSingle, isSign.utf8Size⟩
      have digits := digitsFrom?_encode signSingle (splitSign behind).2
      rw [List.append_assoc, ← parts] at digits
      have lengths := congrArg List.length (append_splitDigits (splitSign behind).2)
      have signLengths := congrArg List.length parts
      simp only [List.append_assoc, List.singleton_append, List.length_append, List.length_cons,
        List.length_nil, Nat.zero_add] at start digits lengths signLengths
      rw [if_pos marked, if_pos marked, start, digits, Option.map_some, List.length_append,
        List.length_cons]
      by_cases noDigits : (splitDigits (splitSign behind).2).1 = []
      · rw [noDigits]
        simp
      · have positive := List.length_pos_iff.mpr noDigits
        rw [if_pos positive, if_neg (mt List.isEmpty_iff.mp noDigits)]
        refine congrArg some ?_
        simp only
        omega
    · rw [if_neg marked, if_neg marked, List.length_append, Nat.add_sub_cancel]

/-! ### The literal -/

/-- The slices of a literal give its normal form. -/
theorem normalized?_text (literal : Literal) (rest : List Char) :
    let mantissa := literal.whole ++ pointed literal.fraction?
    normalized? (literal.text ++ rest) mantissa.length literal.text.length =
      some literal.normal.text := by
  intro mantissa
  have text : literal.text = mantissa ++ exponentText literal.exponent? :=
    (List.append_assoc _ _ _).symm
  have single := literal.utf8Size_text
  rw [text] at single ⊢
  have behind := slice?_append single rest
  have before : slice? (mantissa ++ exponentText literal.exponent? ++ rest) 0 mantissa.length =
      some mantissa := by
    have mantissaSingle := (List.forall_mem_append.mp single).1
    have sliced :=
      @slice?_append [] mantissa mantissaSingle (exponentText literal.exponent? ++ rest)
    rwa [List.nil_append, List.length_nil, ← List.append_assoc] at sliced
  have noPoint : ∀ c ∈ literal.whole, (c != '.') = true := by
    intro c mem
    have digit := literal.isDigit_of_mem_whole c mem
    exact bne_iff_ne.mpr fun point => absurd (point ▸ digit) (by decide)
  have whole : mantissa.takeWhile (· != '.') = literal.whole := by
    rw [List.takeWhile_append_of_pos noPoint]
    cases literal.fraction? <;> simp [pointed]
  have fraction : (mantissa.dropWhile (· != '.')).drop 1 = literal.fraction := by
    rw [List.dropWhile_append_of_pos noPoint, Literal.fraction]
    cases literal.fraction? <;> simp [pointed]
  simp only [normalized?, before, behind, Option.bind_eq_bind, Option.bind_some, whole, fraction]
  rfl

/-- Where a numeral is split off, the literal is found in its normal form. -/
theorem exists_literal? {decimal : Decimal} (splits : splitNumeral? text = some (decimal, rest)) :
    ∃ literal : Literal, text = literal.text ++ rest ∧ decimal = literal.decimal ∧
      literal? text = some (some literal.normal.text) := by
  rcases exists_of_splitNumeral? splits with ⟨literal, spelled, isDecimal, behind, isRest⟩
  refine ⟨literal, spelled, isDecimal, ?_⟩
  let mantissa := literal.whole ++ pointed literal.fraction?
  have text_eq : text = mantissa ++ behindMantissa text := by
    rw [behind, spelled, Literal.text]
    simp only [mantissa, List.append_assoc]
  have single : ∀ c ∈ mantissa, c.utf8Size = 1 := by
    intro c mem
    refine literal.utf8Size_text c ?_
    rw [Literal.text, ← List.append_assoc]
    exact List.mem_append_left _ mem
  have someDigit : splitNumeral? text ≠ none := by
    rw [splits]
    exact Option.some_ne_none _
  have foundMantissa := mantissaEnd?_encode text
  have foundNumber := numberEnd?_encode single (behindMantissa text)
  rw [if_neg (mt splitNumeral?_eq_none_iff.mpr someDigit)] at foundMantissa
  have mantissaLength : text.length - (behindMantissa text).length = mantissa.length := by
    rw [congrArg List.length text_eq, List.length_append, Nat.add_sub_cancel]
  have numberLength : text.length - rest.length = literal.text.length := by
    rw [congrArg List.length spelled, List.length_append, Nat.add_sub_cancel]
  rw [← text_eq, ← isRest, numberLength] at foundNumber
  rw [mantissaLength] at foundMantissa
  have normalized := normalized?_text literal rest
  rw [← spelled] at normalized
  simp only [literal?, foundMantissa, foundNumber, Option.bind_eq_bind, Option.bind_some]
  rw [normalized]
  rfl

/-- Where there is no numeral, none is found. -/
theorem literal?_of_none (noNumeral : splitNumeral? text = none) : literal? text = some none := by
  have found := mantissaEnd?_encode text
  rw [if_pos (splitNumeral?_eq_none_iff.mp noNumeral)] at found
  simp only [literal?, found, Option.bind_eq_bind, Option.bind_some]
  rfl

/-! ### What is read -/

theorem signFactor_mul (negative : Bool) (number : Binary64) :
    signFactor negative * number = if negative then -number else number := by
  cases negative with
  | false => exact one_mul number
  | true => exact neg_one_mul number

/-- No position is out of range or inside a character, and the same number is read. -/
theorem readStart?_eq (text : List Char) : readStart? text = some (readStart text) := by
  simp only [readStart?, splitSign?_eq, Option.bind_eq_bind, Option.bind_some, readStart]
  rcases splitSign (text.dropWhile isBlank) with ⟨negative, unsigned⟩
  simp only
  by_cases word : "Infinity".toList.isPrefixOf unsigned = true
  · rw [if_pos word, if_pos word, signFactor_mul]
    cases negative <;> rfl
  · rw [if_neg word, if_neg word]
    cases numeral : splitNumeral? unsigned with
    | none =>
        rw [literal?_of_none numeral]
        rfl
    | some found =>
        rcases found with ⟨decimal, rest⟩
        rcases exists_literal? numeral with ⟨literal, -, rfl, found⟩
        simp only [found, Option.bind_some, literal.read?_normal]
        rw [toBinary64_eq_neg negative, ← signFactor_mul]
        rfl

end Indexed

end Binary64

end Esoterica
