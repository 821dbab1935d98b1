import Esoterica.Binary64.Decimal
import Esoterica.Text.Blank

/-!
# Reading numbers

A numeral is `D+ (. D*)? E?` or `. D+ E?`, where `D` is a decimal digit and `E` is an exponent
`[eE] [+-]? D+`. Of an exponent, what follows the digit that brings it to 65536 or more is passed
over. There are two readers. One reads the longest number a text starts with, after blank
characters, and knows the word `Infinity`. The other reads a text as a whole, and also takes the
words `inf`, `infinity` and `nan` in upper or lower case.
-/

namespace Esoterica

namespace Decimal

/-- A sign, if there is one: whether it is a minus, and what follows. -/
def splitSign : List Char → Bool × List Char
  | '-' :: rest => (true, rest)
  | '+' :: rest => (false, rest)
  | text => (false, text)

/-- The longest run of decimal digits at the start, and what follows. -/
def splitDigits (text : List Char) : List Char × List Char :=
  (text.takeWhile Char.isDigit, text.dropWhile Char.isDigit)

/-- The fraction after a point, and what follows; a text without a point has none. -/
def splitFraction : List Char → List Char × List Char
  | '.' :: rest => splitDigits rest
  | text => ([], text)

/-- The exponent that digits denote, up to the first that brings it to 65536 or more. -/
def ofExponentChars (digits : List Char) : Nat :=
  digits.foldl
    (fun exponent digit =>
      if exponent < 0x10000 then 10 * exponent + digitValue digit else exponent)
    0

/-- The exponent at the start, and what follows. A mark without digits is no exponent. -/
def splitExponent (text : List Char) : Int × List Char :=
  match text with
  | mark :: rest =>
    if mark = 'e' ∨ mark = 'E' then
      let (negative, unsigned) := splitSign rest
      let (digits, after) := splitDigits unsigned
      if digits.isEmpty then (0, text)
      else (Binary64.signed negative (ofExponentChars digits), after)
    else
      (0, text)
  | [] => (0, text)

/-- The longest numeral at the start of a text and what follows it, if there is one. -/
def splitNumeral? (text : List Char) : Option (Decimal × List Char) :=
  let (whole, afterWhole) := splitDigits text
  let (fraction, afterFraction) := splitFraction afterWhole
  if whole.isEmpty && fraction.isEmpty then
    none
  else
    let (exponent, rest) := splitExponent afterFraction
    some (⟨ofDigitChars (whole ++ fraction), exponent - fraction.length⟩, rest)

end Decimal

namespace Binary64

/-- The longest number at the start of a text, after blank characters; NaN when there is none. -/
def readStart (text : List Char) : Binary64 :=
  let (negative, unsigned) := Decimal.splitSign (text.dropWhile isBlank)
  if "Infinity".toList.isPrefixOf unsigned then
    infinite negative
  else
    match Decimal.splitNumeral? unsigned with
    | some (decimal, _) => decimal.toBinary64 negative
    | none => nan

/-- The number that a whole text denotes. -/
def read? (text : List Char) : Option Binary64 :=
  let (negative, unsigned) := Decimal.splitSign text
  match Decimal.splitNumeral? unsigned with
  | some (decimal, []) => some (decimal.toBinary64 negative)
  | some (_, _ :: _) => none
  | none =>
    let word := unsigned.map Char.toLower
    if word = "inf".toList ∨ word = "infinity".toList then some (infinite negative)
    else if word = "nan".toList then some nan
    else none

end Binary64

end Esoterica
