import Esoterica.Proofs.Binary64.Indices

/-!
# The longest number at the start of a text

A number is written as `[+-]?` and then a literal or the word `Infinity`. The reader of starts finds
the longest number that a text starts with, after blank characters, or says that there is none. It
need not look back: whatever literal a text starts with, the splitting of its parts goes at least to
the end of it. All characters of a number take one byte, so each of its parts ends between two
characters of the text, whatever follows.
-/

namespace Esoterica

namespace Decimal

variable {text rest : List Char} {decimal : Decimal}

/-! ### Splitting literals off -/

theorem splitFraction_suffix (text : List Char) : (splitFraction text).2 <:+ text := by
  rcases exists_of_splitFraction text with ⟨fraction?, front, -⟩
  exact ⟨_, front.symm⟩

/-- With digits before the point or behind it there is a numeral. -/
theorem exists_splitNumeral?_eq (text : List Char)
    (someDigit : (splitDigits text).1 ≠ [] ∨ (splitFraction (splitDigits text).2).1 ≠ []) :
    ∃ decimal, splitNumeral? text =
      some (decimal, (splitExponent (splitFraction (splitDigits text).2).2).2) := by
  have notEmpty := Bool.eq_false_iff.mp (isEmpty_and_isEmpty_iff.mpr someDigit)
  exact ⟨_, if_neg notEmpty⟩

/-- Digits with a point among them are read, perhaps as a part of a longer literal. -/
theorem exists_splitNumeral?_mantissa (literal : Literal) (rest : List Char) :
    ∃ decimal after,
      splitNumeral? (literal.whole ++ (pointed literal.fraction? ++ rest)) = some (decimal, after) ∧
        after <:+ rest := by
  rcases literal with ⟨whole, fraction?, exponent?, wholeDigits, fractionDigits, someDigit⟩
  cases fraction? with
  | none =>
      have splits := splitDigits_append wholeDigits rest
      have nonempty : whole ≠ [] := by simpa using someDigit
      rcases exists_splitNumeral?_eq (whole ++ rest) (.inl (by simp [splits, nonempty])) with
        ⟨decimal, found⟩
      refine ⟨decimal, _, found, ?_⟩
      rw [splits]
      exact (splitExponent_suffix _).trans
        ((splitFraction_suffix _).trans (splitDigits_suffix rest))
  | some fraction =>
      change ∀ c ∈ fraction, c.isDigit = true at fractionDigits
      have splits : splitDigits (whole ++ '.' :: (fraction ++ rest)) =
          (whole, '.' :: (fraction ++ rest)) := by
        rw [splitDigits_append wholeDigits]
        simp [splitDigits]
      have splitsFraction := splitDigits_append fractionDigits rest
      have longer : whole ≠ [] ∨ fraction ++ (splitDigits rest).1 ≠ [] :=
        someDigit.imp_right (mt fun isNil => (List.append_eq_nil_iff.mp isNil).1)
      rcases exists_splitNumeral?_eq (whole ++ '.' :: (fraction ++ rest))
        (by rwa [splits, splitFraction, splitsFraction]) with ⟨decimal, found⟩
      refine ⟨decimal, _, found, ?_⟩
      rw [splits, splitFraction, splitsFraction]
      exact (splitExponent_suffix _).trans (splitDigits_suffix rest)

/-- A literal at the start is read, perhaps as a part of a longer one. -/
theorem exists_splitNumeral?_append (literal : Literal) (rest : List Char) :
    ∃ decimal after, splitNumeral? (literal.text ++ rest) = some (decimal, after) ∧
      after <:+ rest := by
  rw [Literal.text, List.append_assoc, List.append_assoc]
  cases literal.exponent? with
  | none => exact exists_splitNumeral?_mantissa literal rest
  | some exponent =>
      -- The mark of the exponent keeps the mantissa from going on, so only its digits can.
      have ends := endsMantissa_exponentText exponent rest
      refine ⟨_, _, literal.splitNumeral?_of_endsMantissa ends, ?_⟩
      rw [exponentText, exponent.splitExponent_append]
      exact splitDigits_suffix rest

end Decimal

namespace Binary64

open Decimal

/-! ### Numbers with signs -/

/-- A number as it is written: a sign, and a literal or else the word `Infinity`. -/
structure Spelling where
  sign : List Char
  literal? : Option Literal
  isSign : IsSign sign

namespace Spelling

def isNegative (spelling : Spelling) : Bool :=
  spelling.sign == ['-']

def unsigned (spelling : Spelling) : List Char :=
  match spelling.literal? with
  | none => "Infinity".toList
  | some literal => literal.text

def text (spelling : Spelling) : List Char :=
  spelling.sign ++ spelling.unsigned

/-- A signed infinity, or the sign times what is read of the literal's normal form as a whole. -/
def value? (spelling : Spelling) : Option Binary64 :=
  match spelling.literal? with
  | none => some (infinite spelling.isNegative)
  | some literal =>
    (read? literal.normal.text).map fun number => if spelling.isNegative then -number else number

variable {spelling : Spelling} {text rest : List Char}

theorem utf8Size_text (spelling : Spelling) : ∀ c ∈ spelling.text, c.utf8Size = 1 := by
  refine List.forall_mem_append.mpr ⟨spelling.isSign.utf8Size, ?_⟩
  have word : "Infinity".toList.all (·.utf8Size == 1) = true := by decide +kernel
  unfold unsigned
  split
  · exact fun c mem => beq_iff_eq.mp (List.all_eq_true.mp word c mem)
  · exact Literal.utf8Size_text _

/-- The sign of a number is what is split off. -/
theorem splitSign_text (spelling : Spelling) (rest : List Char) :
    splitSign (spelling.text ++ rest) = (spelling.isNegative, spelling.unsigned ++ rest) := by
  rcases spelling with ⟨sign, _ | literal, isSign⟩
  · rcases isSign with rfl | rfl | rfl
    · rfl
    · rfl
    · rfl
  · rcases literal.exists_text_eq_cons with ⟨first, more, starts, plain⟩
    simp only [text, unsigned, List.append_assoc, starts]
    exact splitSign_append isSign plain (more ++ rest)

/-- The text starts with the number, and with no longer one. -/
structure IsLongest (spelling : Spelling) (text : List Char) : Prop where
  starts : spelling.text <+: text
  longest : ∀ other : Spelling, other.text <+: text → other.text.length ≤ spelling.text.length

/-- A number is the longest if every other leaves as much of the text. -/
theorem isLongest_of_rest (splits : text = spelling.text ++ rest)
    (leaves : ∀ (other : Spelling) (after : List Char),
      (splitSign text).2 = other.unsigned ++ after → rest.length ≤ after.length) :
    spelling.IsLongest text := by
  refine ⟨⟨rest, splits.symm⟩, ?_⟩
  rintro other ⟨after, same⟩
  have unsigned : (splitSign text).2 = other.unsigned ++ after := by
    rw [← same, splitSign_text]
  have shorter := leaves other after unsigned
  have lengths := congrArg List.length (same.trans splits)
  simp only [List.length_append] at lengths
  omega

end Spelling

/-- The word and the literals start with different characters. -/
theorem no_infinity_of_literal (literal : Literal) (rest : List Char) :
    ¬ "Infinity".toList <+: literal.text ++ rest := by
  rintro ⟨after, same⟩
  rcases literal.exists_text_eq_cons with ⟨first, more, starts, plain⟩
  rw [starts] at same
  exact plain.ne (by decide) (List.cons.inj same).1.symm

/-! ### What is read -/

section reading

variable {text rest : List Char} {decimal : Decimal}

theorem readStart_of_infinity
    (word : "Infinity".toList <+: (splitSign (text.dropWhile isBlank)).2) :
    readStart text = infinite (splitSign (text.dropWhile isBlank)).1 :=
  if_pos (List.isPrefixOf_iff_prefix.mpr word)

theorem readStart_of_splitNumeral?
    (noWord : ¬ "Infinity".toList <+: (splitSign (text.dropWhile isBlank)).2)
    (splits : splitNumeral? (splitSign (text.dropWhile isBlank)).2 = some (decimal, rest)) :
    readStart text = decimal.toBinary64 (splitSign (text.dropWhile isBlank)).1 := by
  simp only [readStart, if_neg (mt List.isPrefixOf_iff_prefix.mp noWord), splits]

theorem readStart_of_none
    (noWord : ¬ "Infinity".toList <+: (splitSign (text.dropWhile isBlank)).2)
    (noNumeral : splitNumeral? (splitSign (text.dropWhile isBlank)).2 = none) :
    readStart text = nan := by
  simp only [readStart, if_neg (mt List.isPrefixOf_iff_prefix.mp noWord), noNumeral]

end reading

/-- No number starts with a blank character. -/
theorem dropWhile_isBlank_literal {sign : List Char} (isSign : IsSign sign) (literal : Literal) :
    (sign ++ literal.text).dropWhile isBlank = sign ++ literal.text := by
  rcases isSign with rfl | rfl | rfl
  · rcases literal.exists_text_eq_cons with ⟨first, rest, starts, plain⟩
    rw [starts]
    exact List.dropWhile_cons_of_neg (Bool.eq_false_iff.mp plain.isBlank_eq_false)
  · rfl
  · rfl

/-- A literal with a sign is read with this sign. -/
theorem readStart_literal {sign : List Char} (isSign : IsSign sign) (literal : Literal) :
    readStart (sign ++ literal.text) = literal.decimal.toBinary64 (sign == ['-']) := by
  have visible := dropWhile_isBlank_literal isSign literal
  have signed := Spelling.splitSign_text ⟨sign, some literal, isSign⟩ []
  simp only [List.append_nil, Spelling.text, Spelling.unsigned] at signed
  have noWord := no_infinity_of_literal literal []
  rw [List.append_nil] at noWord
  have reads := @readStart_of_splitNumeral? (sign ++ literal.text) [] literal.decimal
  rw [visible, signed] at reads
  exact reads noWord literal.splitNumeral?_text

namespace Spelling

variable {text sign rest : List Char}

/-- The value of a literal with a sign is the decimal that is read. -/
theorem value?_literal (isSign : IsSign sign) (literal : Literal) :
    value? ⟨sign, some literal, isSign⟩ = some (literal.decimal.toBinary64 (sign == ['-'])) := by
  change (read? literal.normal.text).map _ = _
  rw [literal.read?_normal, toBinary64_eq_neg (sign == ['-'])]
  rfl

/-- The word is the longest number where it stands. -/
theorem isLongest_infinity (isSign : IsSign sign) (front : text = sign ++ (splitSign text).2)
    (word : (splitSign text).2 = "Infinity".toList ++ rest) :
    IsLongest ⟨sign, none, isSign⟩ text := by
  have splits : text = Spelling.text ⟨sign, none, isSign⟩ ++ rest := by
    rw [Spelling.text, List.append_assoc]
    exact front.trans (congrArg (sign ++ ·) word)
  refine isLongest_of_rest splits ?_
  rintro ⟨_, _ | literal, _⟩ after same
  · exact Nat.le_of_eq (congrArg List.length (List.append_cancel_left (word.symm.trans same)))
  · exact absurd ⟨rest, word.symm.trans same⟩ (no_infinity_of_literal literal after)

/-- What is split off as a numeral is the longest number where there is no such word. -/
theorem isLongest_literal (isSign : IsSign sign) (front : text = sign ++ (splitSign text).2)
    (noWord : ¬ "Infinity".toList <+: (splitSign text).2) {decimal : Decimal} {literal : Literal}
    (numeral : splitNumeral? (splitSign text).2 = some (decimal, rest))
    (spelled : (splitSign text).2 = literal.text ++ rest) :
    IsLongest ⟨sign, some literal, isSign⟩ text := by
  have splits : text = Spelling.text ⟨sign, some literal, isSign⟩ ++ rest := by
    rw [Spelling.text, List.append_assoc]
    exact front.trans (congrArg (sign ++ ·) spelled)
  refine isLongest_of_rest splits ?_
  rintro ⟨_, _ | other, _⟩ after same
  · exact absurd ⟨after, same.symm⟩ noWord
  · rcases exists_splitNumeral?_append other after with ⟨_, behind, found, suffix⟩
    have same : (splitSign text).2 = other.text ++ after := same
    rw [same] at numeral
    cases numeral.symm.trans found
    exact suffix.length_le

end Spelling

/--
The reader of starts finds the longest number that a text starts with after its blank characters,
and gives NaN only where there is none. The value is a signed infinity or the sign times what is
read of a literal with digits on both sides of a point, which is always accepted; it is the number
nearest to the decimal if the exponent is below 65536 in absolute value. Wherever the text is cut,
behind the sign or up to the end of the number, the bytes before the cut are whole characters. The
reader by byte positions, in which every slice is checked, reads the same number of every text, from
that literal: no position is out of range or inside a character, also where digits are looked for
behind the number.
-/
theorem reads_longest_number (text : List Char) :
    let visible := text.dropWhile isBlank
    Indexed.readStart? text = some (readStart text) ∧
      (∀ sign, IsSign sign → sign <+: visible → IsBoundary visible sign.length) ∧
      (readStart text = nan ∧ (∀ spelling : Spelling, ¬ spelling.text <+: visible) ∨
        ∃ spelling : Spelling, spelling.IsLongest visible ∧
          (∀ cut ≤ spelling.text.length, IsBoundary visible cut) ∧
          spelling.value? = some (readStart text) ∧
          ∀ literal ∈ spelling.literal?,
            Indexed.literal? (splitSign visible).2 = some (some literal.normal.text) ∧
              (literal.HasSmallExponent →
                readStart text = round spelling.isNegative unitExponent literal.value.numerator
                  literal.value.denominator)) := by
  intro visible
  have behindSign (sign : List Char) (isSign : IsSign sign) (isFront : sign <+: visible) :
      IsBoundary visible sign.length :=
    isBoundary_of_single isFront isSign.utf8Size (Nat.le_refl _)
  refine ⟨Indexed.readStart?_eq text, behindSign, ?_⟩
  have boundaries {spelling : Spelling} (longest : spelling.IsLongest visible) :
      ∀ cut ≤ spelling.text.length, IsBoundary visible cut :=
    fun cut inside => isBoundary_of_single longest.starts spelling.utf8Size_text inside
  rcases exists_of_splitSign visible with ⟨sign, isSign, front, negative⟩
  by_cases word : "Infinity".toList <+: (splitSign visible).2
  · have reads := readStart_of_infinity word
    rcases word with ⟨rest, unsigned⟩
    have longest := Spelling.isLongest_infinity isSign front unsigned.symm
    refine .inr ⟨_, longest, boundaries longest, ?_, ?_⟩
    · rw [reads, negative]
      rfl
    · exact fun literal isLiteral => nomatch isLiteral
  · cases numeral : splitNumeral? (splitSign visible).2 with
    | none =>
        refine .inl ⟨readStart_of_none word numeral, ?_⟩
        rintro spelling ⟨after, same⟩
        have unsigned := spelling.splitSign_text after
        rw [same] at unsigned
        rw [unsigned] at word numeral
        rcases spelling with ⟨_, _ | literal, _⟩
        · exact word (List.prefix_append _ _)
        · rcases exists_splitNumeral?_append literal after with ⟨_, _, found, -⟩
          cases numeral.symm.trans found
    | some found =>
        rcases found with ⟨decimal, rest⟩
        rcases Indexed.exists_literal? numeral with ⟨literal, spelled, rfl, handed⟩
        have longest := Spelling.isLongest_literal isSign front word numeral spelled
        have reads := readStart_of_splitNumeral? word numeral
        rw [negative] at reads
        refine .inr ⟨_, longest, boundaries longest, ?_, ?_⟩
        · rw [reads]
          exact Spelling.value?_literal isSign literal
        · intro other isLiteral
          cases isLiteral
          refine ⟨handed, fun small => ?_⟩
          rw [reads, Literal.decimal_eq_value small, toBinary64_eq_round]
          rfl

/--
A mark of an exponent with a sign, and a point without digits, each before a character of two bytes:
digits are looked for at the position where this character starts, and none are found. And a number
with all parts before such a character, with the sign and the literal of which it is read.
-/
theorem reads_longest_number_of_nothing_behind :
    let text := "\u00a0-.5e3\u00e9".toList
    Indexed.readStart? "1e+\u00e9".toList = some 1 ∧
      Indexed.readStart? ".\u00e9".toList = some nan ∧ Indexed.readStart? text = some (-500) ∧
      IsBoundary (text.dropWhile isBlank) 1 ∧
      ∃ (spelling : Spelling) (literal : Literal),
        spelling.IsLongest (text.dropWhile isBlank) ∧ literal ∈ spelling.literal? ∧
        literal.HasSmallExponent ∧
        -500 = round spelling.isNegative unitExponent literal.value.numerator
          literal.value.denominator := by
  intro text
  have reads (text : List Char) := (reads_longest_number text).1
  have isNumber : readStart text = -500 := by decide +kernel
  have mark : readStart "1e+\u00e9".toList = 1 := by decide +kernel
  have point : readStart ".\u00e9".toList = nan := by decide +kernel
  have visible_length : (text.dropWhile isBlank).length = 6 := by decide +kernel
  have minus : ['-'] <+: text.dropWhile isBlank := by decide +kernel
  rcases reads_longest_number text with
    ⟨_, behindSign, ⟨isNaN, _⟩ | ⟨spelling, longest, _, _, isRead⟩⟩
  · rw [isNumber] at isNaN
    exact absurd isNaN (by decide +kernel)
  · refine ⟨by rw [reads, mark], by rw [reads, point], by rw [reads, isNumber],
      behindSign ['-'] (.inr (.inr rfl)) minus, spelling, ?_⟩
    have short := longest.starts.length_le
    rw [visible_length] at short
    rcases spelling with ⟨sign, _ | literal, isSign⟩
    · have eight : "Infinity".toList.length = 8 := by decide +kernel
      simp only [Spelling.text, Spelling.unsigned, List.length_append, eight] at short
      omega
    · simp only [Spelling.text, Spelling.unsigned, List.length_append] at short
      have small := Literal.hasSmallExponent_of_length (Nat.le_trans (Nat.le_add_left _ _) short)
      refine ⟨literal, longest, rfl, small, ?_⟩
      rw [← isNumber]
      exact (isRead literal rfl).2 small

end Binary64

end Esoterica
