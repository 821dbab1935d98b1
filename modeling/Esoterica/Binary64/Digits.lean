/-!
# Digits

Natural numbers in base ten. The number of a long row of digits is found by joining neighbours:
pairs of digits become digits of the square of the base, until one is left. So the work is spent on
few products of large numbers rather than on one product for each digit.
-/

namespace Esoterica

namespace Decimal

/-- The number of digits, least significant first. -/
def horner (base : Nat) (digits : List Nat) : Nat :=
  digits.foldr (fun digit number => digit + base * number) 0

/-- Joins pairs of digits, least significant first, to digits of the square of the base. -/
def joinPairs (base : Nat) : List Nat → List Nat
  | low :: high :: rest => (low + base * high) :: joinPairs base rest
  | rest => rest

/-- The number of digits, least significant first, where pairs are joined `rounds` times. -/
def join : (rounds base : Nat) → List Nat → Nat
  | rounds + 1, base, low :: high :: rest =>
    join rounds (base * base) (joinPairs base (low :: high :: rest))
  | _, base, digits => horner base digits

theorem horner_joinPairs (base : Nat) (digits : List Nat) :
    horner (base * base) (joinPairs base digits) = horner base digits := by
  fun_induction joinPairs base digits with
  | case1 low high rest ih =>
      simp only [horner, List.foldr_cons] at ih ⊢
      rw [ih, Nat.mul_add, ← Nat.mul_assoc, Nat.add_assoc]
  | case2 rest short =>
      match rest, short with
      | [], _ => rfl
      | [digit], _ => simp [horner]
      | low :: high :: more, short => exact absurd rfl (short low high more)

/-- How often pairs are joined makes no difference to the number. -/
theorem join_eq_horner (rounds base : Nat) (digits : List Nat) :
    join rounds base digits = horner base digits := by
  fun_induction join rounds base digits with
  | case1 base low high rest rounds ih => rw [ih, horner_joinPairs]
  | case2 => rfl

def digitValue (digit : Char) : Nat :=
  digit.toNat - '0'.toNat

/-- The natural number that a list of decimal digits denotes; zero for no digits. -/
def ofDigitChars (digits : List Char) : Nat :=
  join digits.length.log2.succ 10 (digits.reverse.map digitValue)

/-- The characters of a natural number in base ten. -/
def digitChars (n : Nat) : List Char :=
  Nat.toDigits 10 n

end Decimal

end Esoterica
