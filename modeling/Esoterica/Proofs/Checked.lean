/-!
# Integers of 64 bits

Operations that give up where a result is out of range. What they give is what the integers give, so
a computation in 64 bits that comes to an end has come to the right one. A word that is cast between
signed and unsigned keeps its value below `2 ^ 63`.
-/

namespace Esoterica

namespace Checked

/-- An integer in 64 bits, unless it is out of range. -/
def ofInt? (value : Int) : Option Int64 :=
  if Int64.minValue.toInt ≤ value ∧ value ≤ Int64.maxValue.toInt then some (.ofInt value) else none

/-- The sum, unless it overflows. -/
def add? (left right : Int64) : Option Int64 :=
  ofInt? (left.toInt + right.toInt)

/-- The product, unless it overflows. -/
def mul? (left right : Int64) : Option Int64 :=
  ofInt? (left.toInt * right.toInt)

/-- The remainder with the sign of the dividend, unless the quotient is undefined or overflows. -/
def remainder? (dividend divisor : Int64) : Option Int64 :=
  if divisor = 0 ∨ dividend = Int64.minValue ∧ divisor = -1 then none
  else some (dividend % divisor)

/-- By positive divisors there is always a remainder, and it is that of the integers. -/
def IsFloorMod (floorMod? : Int64 → Int64 → Option Int64) : Prop :=
  ∀ dividend divisor, 0 < divisor.toInt → ∃ word,
    floorMod? dividend divisor = some word ∧ word.toInt = dividend.toInt % divisor.toInt

/-- The remainder with the sign of the divisor, from the one with the sign of the dividend. -/
def floorMod? (dividend divisor : Int64) : Option Int64 := do
  let remainder ← remainder? dividend divisor
  if 0 < remainder ∧ divisor < 0 ∨ remainder < 0 ∧ 0 < divisor then add? remainder divisor
  else return remainder

theorem exists_ofInt? (value : Int) (lower : -0x8000000000000000 ≤ value)
    (upper : value < 0x8000000000000000) :
    ∃ word, ofInt? value = some word ∧ word.toInt = value := by
  have least : Int64.minValue.toInt = -0x8000000000000000 := rfl
  have greatest : Int64.maxValue.toInt = 0x7FFFFFFFFFFFFFFF := rfl
  refine ⟨.ofInt value, if_pos (by omega), ?_⟩
  exact Int64.toInt_ofInt_of_le lower upper

theorem ofInt?_eq_none {value : Int}
    (outside : value < -0x8000000000000000 ∨ 0x8000000000000000 ≤ value) :
    ofInt? value = none := by
  have least : Int64.minValue.toInt = -0x8000000000000000 := rfl
  have greatest : Int64.maxValue.toInt = 0x7FFFFFFFFFFFFFFF := rfl
  exact if_neg (by omega)

theorem ofInt?_natCast (n : Nat) :
    ofInt? n = if n ≤ 0x7FFFFFFFFFFFFFFF then some (.ofNat n) else none := by
  by_cases inside : n ≤ 0x7FFFFFFFFFFFFFFF
  · obtain ⟨word, isWord, value⟩ := exists_ofInt? n (by omega) (by omega)
    have same : word = .ofNat n := by
      apply Int64.toInt_inj.mp
      rw [value, Int64.toInt_ofNat_of_lt (by omega)]
    rw [isWord, same, if_pos inside]
  · rw [ofInt?_eq_none (.inr (by omega)), if_neg inside]

theorem isFloorMod_floorMod? : IsFloorMod floorMod? := by
  intro dividend divisor positive
  have zero : (0 : Int64).toInt = 0 := rfl
  have upper : divisor.toInt < 0x8000000000000000 := divisor.toInt_lt
  have defined : ¬ (divisor = 0 ∨ dividend = Int64.minValue ∧ divisor = -1) := by
    rintro (rfl | ⟨_, rfl⟩)
    · exact absurd positive (by decide)
    · exact absurd positive (by decide)
  have truncated : (dividend % divisor).toInt = dividend.toInt.tmod divisor.toInt :=
    Int64.toInt_mod _ _
  have nonneg := Int.emod_nonneg dividend.toInt (Int.ne_of_gt positive)
  have below := Int.emod_lt_of_pos dividend.toInt positive
  -- The remainder that was cut off toward zero lacks the divisor if it is negative.
  have corrected : dividend.toInt % divisor.toInt = dividend.toInt.tmod divisor.toInt +
      if dividend.toInt.tmod divisor.toInt < 0 then divisor.toInt else 0 := by
    have cut := Int.tmod_eq_emod (a := dividend.toInt) (b := divisor.toInt)
    split at cut
    · rw [if_neg (by omega)]
      omega
    · rw [if_pos (by omega)]
      omega
  simp only [floorMod?, remainder?, if_neg defined, Option.bind_eq_bind, Option.bind_some,
    Int64.lt_iff_toInt_lt, zero, truncated]
  by_cases negative : dividend.toInt.tmod divisor.toInt < 0
  · rw [if_pos negative] at corrected
    rw [if_pos (.inr ⟨negative, positive⟩), corrected, ← truncated]
    exact exists_ofInt? _ (by omega) (by omega)
  · rw [if_neg negative, Int.add_zero] at corrected
    rw [if_neg (by omega), corrected]
    exact ⟨_, rfl, truncated⟩

/-! ### Words with and without a sign -/

theorem toInt_toInt64 (word : UInt64) : word.toInt64.toInt = Int.bmod word.toNat UInt64.size :=
  BitVec.toInt_eq_toNat_bmod word.toBitVec

/-- A word below `2 ^ 63` is the same number with a sign and without. -/
theorem toInt_toInt64_of_le {word : UInt64} (small : word.toNat ≤ 0x7FFFFFFFFFFFFFFF) :
    word.toInt64.toInt = word.toNat := by
  have size : UInt64.size = 0x10000000000000000 := rfl
  rw [toInt_toInt64]
  exact Int.bmod_eq_of_le_mul_two (by omega) (by omega)

theorem toNat_ofNat_of_le {n : Nat} (small : n ≤ 0x7FFFFFFFFFFFFFFF) :
    (UInt64.ofNat n).toNat = n := by
  have size : UInt64.size = 0x10000000000000000 := rfl
  exact UInt64.toNat_ofNat_of_lt' (by omega)

end Checked

end Esoterica
