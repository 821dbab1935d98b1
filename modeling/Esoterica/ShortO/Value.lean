import Esoterica.Binary64.Reading
import Esoterica.Binary64.Writing
import Esoterica.Machine.Fault
import Esoterica.Text.Pattern

/-!
# Values

The stack language works with numbers and texts. A number that would not be finite is replaced by a
text that says so, so that arithmetic never puts NaN or an infinity on the stack.
-/

namespace Esoterica

namespace ShortO

inductive Value where
  | number (number : Binary64)
  | text (text : String)
deriving DecidableEq

/-- The number of characters above which no operator builds a text. -/
def maxTextLength : Nat :=
  0x20000000

namespace Value

/-- The text in place of NaN. -/
def notANumber : Value :=
  text "N/A"

/-- A number as a value; what is not finite becomes a text. -/
def ofNumber : Binary64 → Value
  | .nan => notANumber
  | .infinite negative => text (if negative then "-Infinity" else "Infinity")
  | .finite negative magnitude => number (.finite negative magnitude)

def ofBool (condition : Bool) : Value :=
  number (if condition then 1 else 0)

def kind : Value → ValueKind
  | number _ => .number
  | text _ => .text

/-- Zero, NaN and the empty text are false. -/
def isTrue : Value → Bool
  | number n => !n.isZero && !n.isNaN
  | text t => !t.isEmpty

/-- A number as it is, a text by the number of its characters. -/
def count : Value → Binary64
  | number n => n
  | text t => .ofNat t.length

/-- The text that is printed for a value. -/
def toText : Value → String
  | number n => n.toText
  | text t => t

/-- The order of texts by their characters' codes. -/
def compareTexts (left right : String) : Ordering :=
  if left < right then .lt else if left = right then .eq else .gt

/-- The natural order within a kind, with NaN equal to everything; texts are above numbers. -/
def compare : Value → Value → Ordering
  | number left, number right => (Binary64.compare? left right).getD .eq
  | text left, text right => compareTexts left right
  | text _, number _ => .gt
  | number _, text _ => .lt

end Value

/--
The character with a code, of which the lowest 16 bits of the whole part count, without the sign.
The codes between `0xD800` and `0xDFFF` are no characters and give the replacement character.
-/
def charWithCode (code : Binary64) : Char :=
  let code := code.toInt.natAbs % UInt16.size
  if code.isValidChar then Char.ofNat code else '�'

/-- The whole part of a number brought into the range from zero to a length; NaN counts as zero. -/
def cutPoint (index : Binary64) (length : Nat) : Nat :=
  if index.isNaN || index.le 0 then 0
  else if (Binary64.ofNat length).le index then length
  else index.toInt.toNat

/-- How often something is done for a count: as often as one can be taken while it is above zero. -/
def rounds (count : Binary64) : Nat :=
  if Binary64.lt 0 count then count.ceil.toUnsigned else 0

/-- A text written several times, made by doubling what is written half as often. -/
def repeatText (text : String) (count : Nat) : String :=
  if count = 0 then ""
  else
    let half := repeatText text (count / 2)
    if count % 2 = 0 then half ++ half else half ++ half ++ text
termination_by count

theorem length_repeatText (text : String) (count : Nat) :
    (repeatText text count).length = count * text.length := by
  fun_induction repeatText text count with
  | case1 => simp
  | case2 count _ half even ih =>
      have : count = count / 2 + count / 2 := by omega
      rw [String.length_append, ih, ← Nat.add_mul, ← this]
  | case3 count _ half odd ih =>
      have : count = count / 2 + count / 2 + 1 := by omega
      rw [String.length_append, String.length_append, ih, ← Nat.add_mul, ← Nat.succ_mul,
        Nat.succ_eq_add_one, ← this]

/--
The number of digits before the point of a whole number that is not negative, found by dividing by
ten until it is below ten; no finite number takes more than 308 divisions.
-/
def countDigits : (divisions : Nat) → Binary64 → Nat
  | 0, _ => 1
  | divisions + 1, n =>
    if Binary64.le 10 n then countDigits divisions (n / 10).floor + 1 else 1

namespace Value

/--
The difference of two values. A text is freed of another text, and cut by a number: in front when
the number stands on the left, otherwise at its end.
-/
def difference : Value → Value → Value
  | number left, number right => ofNumber (left - right)
  | text left, text right => text ((Pattern.ofText right).eraseFrom left)
  | number left, text right => text (right.drop (cutPoint left right.length)).copy
  | text left, number right =>
    text (left.take (cutPoint (Binary64.ofNat left.length - right) left.length)).copy

/-- A text as the number it starts with. -/
def toNumber : Value → Value
  | text t => ofNumber (Binary64.readStart t.toList)
  | number n => number n

/-- A number as the character with this code. -/
def toCharacter : Value → Value
  | number n => text (charWithCode n).toString
  | text t => text t

def floor : Value → Value
  | number n => ofNumber n.floor
  | text t => text t

/-- The number of characters of a text, or of digits before a number's point. -/
def length : Value → Nat
  | text t => t.length
  | number n => countDigits 308 n.floor.abs

/-- The outcome of a comparison. -/
def ofOrdering : Ordering → Value
  | .lt => number (-1)
  | .eq => number 0
  | .gt => number 1

end Value

end ShortO

end Esoterica
