import Esoterica.Proofs.Checked
import Esoterica.Proofs.Script.Printing

/-!
# Digits of base sixteen

What digits denote, in either case and with any zeros in front, is said without the way in which
they are read. A reader that adds them one by one and tests a bound at each of them refuses them if
and only if they denote too much as a whole, since a number only gets larger on the way. Signed
integers of 64 bits that are multiplied and added with a check for overflow are such a reader.
-/

namespace Esoterica

namespace Script

/-- A digit of base sixteen, in lower or in upper case. -/
def IsHexDigit (c : Char) (digit : Nat) : Prop :=
  digit < 16 ∧ (c = digit.digitChar ∨ c = digit.digitChar.toUpper)

/-- Digits of base sixteen denote a number, the last of them counting once. -/
inductive Denotes : List Char → Nat → Prop where
  | nil : Denotes [] 0
  | cons {c : Char} {digit value : Nat} {rest : List Char} (isDigit : IsHexDigit c digit)
      (denotes : Denotes rest value) :
      Denotes (c :: rest) (digit * Nat.pow 16 rest.length + value)

instance (c : Char) (digit : Nat) : Decidable (IsHexDigit c digit) :=
  inferInstanceAs (Decidable (digit < 16 ∧ (c = digit.digitChar ∨ c = digit.digitChar.toUpper)))

theorem hexDigit?_toUpper {digit : Nat} (bounded : digit < 16) :
    hexDigit? digit.digitChar.toUpper = some digit := by
  revert digit
  decide

/-- The characters from one to another are the digits from some value on. -/
theorem isHexDigit_of_between {c first last : Char} {digit : Nat} (value : Nat)
    (lower : first ≤ c) (upper : c ≤ last) (isDigit : c.toNat - first.toNat + value = digit)
    (inOrder : ∀ k < last.toNat + 1 - first.toNat,
      IsHexDigit (Char.ofNat (first.toNat + k)) (k + value)) :
    IsHexDigit c digit := by
  have lower : first.toNat ≤ c.toNat := lower
  have upper : c.toNat ≤ last.toNat := upper
  have listed := inOrder (c.toNat - first.toNat) (by omega)
  rwa [Nat.add_sub_cancel' lower, Char.ofNat_toNat, isDigit] at listed

theorem hexDigit?_eq_some_iff {c : Char} {digit : Nat} :
    hexDigit? c = some digit ↔ IsHexDigit c digit := by
  constructor
  · intro found
    unfold hexDigit? at found
    split at found
    next decimal =>
      change (decide ('0'.val ≤ c.val) && decide (c.val ≤ '9'.val)) = true at decimal
      simp only [Bool.and_eq_true, decide_eq_true_eq] at decimal
      exact isHexDigit_of_between 0 decimal.1 decimal.2 (Option.some.inj found) (by decide)
    next =>
      split at found
      next lower =>
        exact isHexDigit_of_between 10 lower.1 lower.2 (Option.some.inj found) (by decide)
      next =>
        split at found
        next upper =>
          exact isHexDigit_of_between 10 upper.1 upper.2 (Option.some.inj found) (by decide)
        next => cases found
  · rintro ⟨bounded, rfl | rfl⟩
    · exact hexDigit?_digitChar bounded
    · exact hexDigit?_toUpper bounded

theorem not_isHexDigit {c : Char} (none : hexDigit? c = none) (digit : Nat) :
    ¬ IsHexDigit c digit := by
  intro isDigit
  rw [hexDigit?_eq_some_iff.mpr isDigit] at none
  cases none

/-- The number that characters denote if all of them are digits. -/
def denoted? : List Char → Option Nat
  | [] => some 0
  | c :: rest => do
    let digit ← hexDigit? c
    let value ← denoted? rest
    return digit * Nat.pow 16 rest.length + value

theorem denoted?_eq_some_iff {digits : List Char} {value : Nat} :
    denoted? digits = some value ↔ Denotes digits value := by
  constructor
  · intro computed
    induction digits generalizing value with
    | nil =>
        cases computed
        exact .nil
    | cons c rest ih =>
        rcases Option.bind_eq_some_iff.mp computed with ⟨digit, found, computedRest⟩
        rcases Option.bind_eq_some_iff.mp computedRest with ⟨value, denoted, isSum⟩
        cases isSum
        exact .cons (hexDigit?_eq_some_iff.mp found) (ih denoted)
  · intro denotes
    induction denotes with
    | nil => rfl
    | cons isDigit _ ih =>
        unfold denoted?
        rw [hexDigit?_eq_some_iff.mpr isDigit, ih]
        rfl

instance (digits : List Char) (value : Nat) : Decidable (Denotes digits value) :=
  decidable_of_decidable_of_iff denoted?_eq_some_iff

namespace Denotes

variable {digits : List Char} {value : Nat}

section

variable {α : Type} (run : (offset number : Nat) → List Char → α) (accept : Nat → α) (refuse : α)

/-- What is computed of digits if each is added to a number as long as that is not too large. -/
structure Digitwise : Prop where
  nil : ∀ offset number, run offset number [] = accept number
  cons : ∀ offset number c digit rest, number ≤ greatestNumber → IsHexDigit c digit →
    run offset number (c :: rest) =
      if 16 * number + digit ≤ greatestNumber then run (offset + 1) (16 * number + digit) rest
      else refuse

variable {run accept refuse}

/-- Digits behind a number are refused at one of them if and only if the whole is too large. -/
theorem run_behind (digitwise : Digitwise run accept refuse) (denotes : Denotes digits value)
    (offset : Nat) {number : Nat} (bounded : number ≤ greatestNumber) :
    run offset number digits =
      if number * Nat.pow 16 digits.length + value ≤ greatestNumber then
        accept (number * Nat.pow 16 digits.length + value)
      else refuse := by
  induction denotes generalizing offset number with
  | nil =>
      have same : number * Nat.pow 16 ([] : List Char).length + 0 = number := Nat.mul_one number
      rw [digitwise.nil, same, if_pos bounded]
  | @cons c digit value rest isDigit denotes ih =>
      rw [digitwise.cons offset number c digit rest bounded isDigit]
      have power : Nat.pow 16 (c :: rest).length = Nat.pow 16 rest.length * 16 := rfl
      have positive : 0 < Nat.pow 16 rest.length := Nat.pow_pos (by decide)
      generalize Nat.pow 16 rest.length = unit at power positive ih
      have sum : number * Nat.pow 16 (c :: rest).length + (digit * unit + value) =
          (16 * number + digit) * unit + value := by
        rw [power]
        grind
      rw [sum]
      by_cases small : 16 * number + digit ≤ greatestNumber
      · rw [if_pos small, ih (offset + 1) small]
      · have larger := Nat.le_mul_of_pos_right (16 * number + digit) positive
        rw [if_neg small, if_neg (by omega)]

theorem run_eq (digitwise : Digitwise run accept refuse) (denotes : Denotes digits value)
    (offset : Nat) :
    run offset 0 digits = if value ≤ greatestNumber then accept value else refuse := by
  have runs := denotes.run_behind digitwise offset (Nat.zero_le _)
  rwa [Nat.zero_mul, Nat.zero_add] at runs

end

end Denotes

/-- Every text starts with digits as far as they go, if only with none. -/
theorem exists_denotes (text : List Char) :
    ∃ digits after value, text = digits ++ after ∧ Denotes digits value ∧
      ∀ c ∈ after.head?, ∀ digit, ¬ IsHexDigit c digit := by
  induction text with
  | nil => exact ⟨[], [], 0, rfl, .nil, by simp⟩
  | cons c rest ih =>
      cases found : hexDigit? c with
      | none =>
          refine ⟨[], c :: rest, 0, rfl, .nil, ?_⟩
          rintro other isHead
          cases isHead
          exact not_isHexDigit found
      | some digit =>
          rcases ih with ⟨digits, after, value, rfl, denotes, stops⟩
          exact ⟨c :: digits, after, _, rfl, .cons (hexDigit?_eq_some_iff.mp found) denotes, stops⟩

/-! ### Digits in 64 bits -/

/-- A number with one more digit behind it, unless the product or the sum overflows. -/
def appendDigit? (number : Int64) (digit : Nat) : Option Int64 := do
  let shifted ← Checked.mul? number 16
  Checked.add? shifted (.ofNat digit)

/-- The number of a text's digits in 64 bits, unless it overflows at one of them. -/
def word? (digits : List Char) : Option Int64 :=
  (digits.filterMap hexDigit?).foldlM appendDigit? 0

theorem appendDigit?_eq {number digit : Nat} (bounded : number ≤ greatestNumber)
    (isDigit : digit < 16) :
    appendDigit? (.ofNat number) digit =
      if 16 * number + digit ≤ greatestNumber then some (.ofNat (16 * number + digit))
      else none := by
  have greatest : greatestNumber = 0x7FFFFFFFFFFFFFFF := rfl
  have toInt {n : Nat} (small : n ≤ greatestNumber) : (Int64.ofNat n).toInt = n :=
    Int64.toInt_ofNat_of_lt (by omega)
  have product : Checked.mul? (.ofNat number) 16 =
      if 16 * number ≤ 0x7FFFFFFFFFFFFFFF then some (.ofNat (16 * number)) else none := by
    have sixteen : (16 : Int64).toInt = 16 := rfl
    have same : (number : Int) * 16 = (16 * number : Nat) := by omega
    rw [Checked.mul?, toInt bounded, sixteen, same, Checked.ofInt?_natCast]
  unfold appendDigit?
  rw [product]
  by_cases small : 16 * number ≤ 0x7FFFFFFFFFFFFFFF
  · have same : ((16 * number : Nat) : Int) + digit = (16 * number + digit : Nat) := by omega
    rw [if_pos small]
    change Checked.add? _ _ = _
    rw [Checked.add?, toInt small, toInt (by omega), same, Checked.ofInt?_natCast]
    rfl
  · rw [if_neg small, if_neg (by omega)]
    rfl

theorem Denotes.word?_eq {digits : List Char} {value : Nat} (denotes : Denotes digits value) :
    word? digits = if value ≤ greatestNumber then some (.ofNat value) else none := by
  have digitwise : Digitwise
      (fun _ number digits => (digits.filterMap hexDigit?).foldlM appendDigit? (.ofNat number))
      (fun number => some (.ofNat number)) none := by
    refine ⟨fun _ _ => rfl, ?_⟩
    intro offset number c digit rest bounded isDigit
    simp only [List.filterMap_cons_some (hexDigit?_eq_some_iff.mpr isDigit), List.foldlM_cons,
      appendDigit?_eq bounded isDigit.1]
    by_cases small : 16 * number + digit ≤ greatestNumber
    · rw [if_pos small, if_pos small]
      rfl
    · rw [if_neg small, if_neg small]
      rfl
  exact denotes.run_eq digitwise 0

end Script

end Esoterica
