import Esoterica.Machine.PlainRun
import Esoterica.Proofs.Binary64.WholeNumbers
import Esoterica.Proofs.Composition
import Esoterica.ShortO.Language

/-!
# Copies and reversals

Two operators do something as often as a value says: one pushes copies of a value, the other takes
values from the stack and pushes them again in the order in which it took them. The count may be a
number, which is rounded up, or a text, whose characters are counted.

Both are loops over a stack that may become full or empty on the way. Their results have a closed
form: the copies fit or they do not, and the values at the top are reversed or are not enough.
-/

namespace Esoterica

open ShortO in
/-- The machine with these values on its stack, the last one on top. -/
def Machine.holding (machine : Machine Token Stack) (values : List Value) : Machine Token Stack :=
  { machine with state := { machine.state with values := values.toArray } }

namespace ShortO

open StackAction

section loops

variable {machine : Machine Token Stack} {value : Value} {values : List Value} {count : Nat}

theorem pop_holding : pop (machine.holding (values ++ [value])) =
    .ok value (machine.holding values) := by
  have top : (machine.holding (values ++ [value])).state.top? = some value := by
    simp [Machine.holding, Stack.top?]
  have below : (machine.holding (values ++ [value])).state.pop =
      (machine.holding values).state := by
    simp [Machine.holding, Stack.pop]
  rw [pop_eq, top]
  simp only [below]
  rfl

theorem pop_holding_nil : pop (machine.holding []) = .error .emptyStack (machine.holding []) := by
  have noTop : (machine.holding []).state.top? = none := rfl
  rw [pop_eq, noTop]

theorem push_holding :
    push value (machine.holding values) =
      if values.length < machine.state.capacity then
        .ok () (machine.holding (values ++ [value]))
      else .error .fullStack (machine.holding values) := by
  have isFull : (machine.holding values).state.isFull =
      decide (machine.state.capacity ≤ values.length) := rfl
  have pushed : (machine.holding values).state.push value =
      (machine.holding (values ++ [value])).state := by
    simp [Machine.holding, Stack.push]
  rw [push_eq, isFull, pushed]
  by_cases room : values.length < machine.state.capacity
  · rw [if_pos room, decide_eq_false (Nat.not_le.mpr room)]
    rfl
  · rw [if_neg room, decide_eq_true (Nat.not_lt.mp room)]
    rfl

/-- As many copies are pushed as are wanted, or as there is room for. -/
theorem pushTimes_holding (bounded : values.length ≤ machine.state.capacity) :
    pushTimes value count (machine.holding values) =
      if values.length + count ≤ machine.state.capacity then
        .ok () (machine.holding (values ++ List.replicate count value))
      else
        .error .fullStack (machine.holding
          (values ++ List.replicate (machine.state.capacity - values.length) value)) := by
  induction count generalizing values with
  | zero =>
      rw [Nat.add_zero, if_pos bounded, List.replicate_zero, List.append_nil]
      rfl
  | succ count ih =>
      simp only [pushTimes, bind, EStateM.bind, push_holding]
      by_cases room : values.length < machine.state.capacity
      · have length : (values ++ [value]).length = values.length + 1 := by simp
        have more (count : Nat) : values ++ [value] ++ List.replicate count value =
            values ++ List.replicate (count + 1) value := by
          rw [List.replicate_succ, List.append_assoc, List.singleton_append]
        have left : machine.state.capacity - (values.length + 1) + 1 =
            machine.state.capacity - values.length := by omega
        simp only [if_pos room]
        rw [ih (by omega), length, more, more, left, Nat.add_assoc, Nat.add_comm 1]
      · have full : machine.state.capacity - values.length = 0 := by omega
        simp only [if_neg room]
        rw [if_neg (by omega), full, List.replicate_zero, List.append_nil]

theorem pushAll_holding {pushed : List Value}
    (room : values.length + pushed.length ≤ machine.state.capacity) :
    pushAll pushed (machine.holding values) = .ok () (machine.holding (values ++ pushed)) := by
  induction pushed generalizing values with
  | nil =>
      rw [List.append_nil]
      rfl
  | cons first rest ih =>
      rw [List.length_cons] at room
      have length : (values ++ [first]).length = values.length + 1 := by simp
      simp only [pushAll, bind, EStateM.bind, push_holding]
      rw [if_pos (by omega)]
      dsimp only
      rw [ih (by omega), List.append_assoc, List.singleton_append]

/-- The values at the top are taken in the order in which they lie, if there are enough. -/
theorem popTimes_holding {taken : List Value} :
    popTimes taken count (machine.holding values) =
      if count ≤ values.length then
        .ok (values.drop (values.length - count) ++ taken)
          (machine.holding (values.take (values.length - count)))
      else .error .emptyStack (machine.holding []) := by
  induction count generalizing values taken with
  | zero =>
      rw [if_pos (Nat.zero_le _), Nat.sub_zero, List.drop_length, List.take_length]
      rfl
  | succ count ih =>
      simp only [popTimes, bind, EStateM.bind]
      rcases List.eq_nil_or_concat values with rfl | ⟨front, last, rfl⟩
      · simp only [pop_holding_nil]
        exact (if_neg (Nat.not_succ_le_zero count)).symm
      · have length : (front ++ [last]).length = front.length + 1 := by simp
        simp only [List.concat_eq_append, pop_holding, length, Nat.add_le_add_iff_right,
          Nat.add_sub_add_right]
        rw [ih, List.drop_append_of_le_length (Nat.sub_le _ _),
          List.take_append_of_le_length (Nat.sub_le _ _), List.append_assoc,
          List.singleton_append]

end loops

/-! ### The operators -/

/-- The list with its last elements in reverse order. -/
def turnLast {α : Type} (count : Nat) (list : List α) : List α :=
  list.take (list.length - count) ++ (list.drop (list.length - count)).reverse

theorem length_turnLast {α : Type} (count : Nat) (list : List α) :
    (turnLast count list).length = list.length := by
  simp only [turnLast, List.length_append, List.length_take, List.length_reverse,
    List.length_drop]
  omega

theorem turnLast_turnLast {α : Type} (count : Nat) (list : List α) :
    turnLast count (turnLast count list) = list := by
  have kept : (list.take (list.length - count)).length = list.length - count := by simp
  rw [turnLast, length_turnLast, turnLast, List.take_left' kept, List.drop_left' kept,
    List.reverse_reverse, List.take_append_drop]

section operators

variable {machine : Machine Token Stack} {values : List Value}

theorem perform_copy (bounded : values.length ≤ machine.state.capacity) (value count : Value) :
    (language .standard).perform (.operator '^') (machine.holding (values ++ [value, count])) =
      if values.length + rounds count.count ≤ machine.state.capacity then
        (.ok .proceed,
          machine.holding (values ++ List.replicate (rounds count.count) value))
      else
        (.error .fullStack,
          machine.holding
            (values ++ List.replicate (machine.state.capacity - values.length) value)) := by
  have split : values ++ [value, count] = values ++ [value] ++ [count] := by simp
  have applies : execute .standard (.operator '^') = Operator.copy.apply := rfl
  simp only [Language.perform, language, applies, Operator.apply, bind, EStateM.bind, split,
    pop_holding, pushTimes_holding bounded]
  by_cases room : values.length + rounds count.count ≤ machine.state.capacity
  · simp only [if_pos room]
    rfl
  · simp only [if_neg room]

theorem perform_reverse (bounded : values.length ≤ machine.state.capacity) (count : Value) :
    (language .standard).perform (.operator 'v') (machine.holding (values ++ [count])) =
      if rounds count.count ≤ values.length then
        (.ok .proceed, machine.holding (turnLast (rounds count.count) values))
      else (.error .emptyStack, machine.holding []) := by
  have applies : execute .standard (.operator 'v') = Operator.reverse.apply := rfl
  simp only [Language.perform, language, applies, Operator.apply, bind, EStateM.bind,
    pop_holding, popTimes_holding]
  by_cases enough : rounds count.count ≤ values.length
  · have room : (values.take (values.length - rounds count.count)).length +
        (values.drop (values.length - rounds count.count)).reverse.length ≤
          machine.state.capacity := by
      simp only [List.length_take, List.length_reverse, List.length_drop]
      omega
    simp only [if_pos enough, List.append_nil, pushAll_holding room]
    rfl
  · simp only [if_neg enough]

end operators

/-! ### Counts -/

section counts

theorem rounds_lt (count : Binary64) : rounds count < UInt64.size := by
  unfold rounds
  split
  · exact count.ceil.toUnsigned_lt
  · decide

/-- A number that is not negative is rounded up, and brought into 64 bits. -/
theorem rounds_finite (magnitude : Magnitude) :
    rounds (.finite false magnitude) = min (UInt64.size - 1) magnitude.ceiling := by
  rw [rounds, Binary64.zero_eq]
  split
  case isTrue => exact Binary64.toUnsigned_ceil magnitude
  case isFalse notAbove =>
    rw [Binary64.lt_finite_iff] at notAbove
    have noUnits : magnitude.units = 0 := by
      have zeroUnits : Magnitude.zero.units = 0 := rfl
      simp only [Binary64.signed, Bool.false_eq_true, if_false, zeroUnits] at notAbove
      omega
    rw [Magnitude.eq_zero_of_units_eq_zero noUnits]
    rfl

theorem rounds_negative (magnitude : Magnitude) : rounds (.finite true magnitude) = 0 := by
  rw [rounds, Binary64.zero_eq, if_neg]
  rw [Binary64.lt_finite_iff]
  have zeroUnits : Magnitude.zero.units = 0 := rfl
  simp only [Binary64.signed, Bool.false_eq_true, if_false, if_true, zeroUnits]
  omega

theorem rounds_ofNat {n : Nat} (small : n ≤ Nat.pow 2 precision) : rounds (.ofNat n) = n := by
  have inRange := Binary64.pow_precision_le
  obtain ⟨magnitude, isNumber, units⟩ := Binary64.exists_ofNat small
  rw [isNumber, rounds_finite, Magnitude.ceiling_of_units units]
  omega

end counts

/--
On a stack that holds some values within its bound, a value and a count: `^` replaces the two by as
many copies of the value, if they fit, and otherwise finds the stack full. On such values and a
count: `v` reverses as many values at the top and leaves the others, if there are so many, and
otherwise finds the stack empty; it never finds it full, and a second one with the same count
restores the values. The count is below `2 ^ 64`: a number is rounded up, those below zero to zero,
and a text counts its characters.
-/
theorem repetition_closed_form (machine : Machine Token Stack) (values : List Value)
    (value count : Value) (bounded : values.length ≤ machine.state.capacity) :
    let times := rounds count.count
    let perform (symbol : Char) (stack : List Value) :=
      (language .standard).perform (.operator symbol) (machine.holding stack)
    (perform '^' (values ++ [value, count]) =
        if values.length + times ≤ machine.state.capacity then
          (.ok .proceed, machine.holding (values ++ List.replicate times value))
        else
          (.error .fullStack,
            machine.holding
              (values ++ List.replicate (machine.state.capacity - values.length) value))) ∧
      (times ≤ values.length →
        perform 'v' (values ++ [count]) =
            (.ok .proceed,
              machine.holding (values.take (values.length - times) ++
                (values.drop (values.length - times)).reverse)) ∧
          perform 'v' (values.take (values.length - times) ++
              (values.drop (values.length - times)).reverse ++ [count]) =
            (.ok .proceed, machine.holding values)) ∧
      ((perform 'v' (values ++ [count])).1 = .error .emptyStack ↔ values.length < times) ∧
      (perform 'v' (values ++ [count])).1 ≠ .error .fullStack ∧
      times < UInt64.size ∧
      (∀ magnitude, count = .number (.finite false magnitude) →
        times = min (UInt64.size - 1) magnitude.ceiling) ∧
      (∀ magnitude, count = .number (.finite true magnitude) → times = 0) ∧
      ∀ text, count = .text text → text.length ≤ Nat.pow 2 precision → times = text.length := by
  intro times perform
  have reverses : perform 'v' (values ++ [count]) =
      if times ≤ values.length then (.ok .proceed, machine.holding (turnLast times values))
      else (.error .emptyStack, machine.holding []) := perform_reverse bounded count
  have reversesBack : perform 'v' (turnLast times values ++ [count]) =
      if times ≤ values.length then (.ok .proceed, machine.holding values)
      else (.error .emptyStack, machine.holding []) := by
    have turned := length_turnLast times values
    have again : perform 'v' (turnLast times values ++ [count]) = _ :=
      perform_reverse (turned.symm ▸ bounded) count
    rwa [turned, turnLast_turnLast] at again
  refine ⟨perform_copy bounded value count, ?_, ?_, ?_, rounds_lt _, ?_, ?_, ?_⟩
  · intro enough
    rw [if_pos enough] at reverses reversesBack
    exact ⟨reverses, reversesBack⟩
  · rw [reverses]
    split
    · simpa using ‹times ≤ values.length›
    · simpa using ‹¬ times ≤ values.length›
  · rw [reverses]
    split
    · simp
    · simp
  · rintro magnitude rfl
    exact rounds_finite magnitude
  · rintro magnitude rfl
    exact rounds_negative magnitude
  · rintro text rfl small
    exact rounds_ofNat small

/-- Two copies do not fit, but one is pushed; two values can be reversed, and reversed again. -/
theorem repetition_closed_form_of_text :
    let machine : Machine Token Stack :=
      { program := { tokens := #[] }, state := { capacity := 4 }, random := .zeros }
    let values : List Value := [.number 1, .text "a", .number 2]
    let perform (symbol : Char) (stack : List Value) :=
      (language .standard).perform (.operator symbol) (machine.holding stack)
    values.length ≤ machine.state.capacity ∧
      perform '^' (values ++ [.text "x", .text "ab"]) =
        (.error .fullStack, machine.holding (values ++ [.text "x"])) ∧
      perform 'v' (values ++ [.text "ab"]) =
        (.ok .proceed, machine.holding [.number 1, .number 2, .text "a"]) ∧
      perform 'v' [.number 1, .number 2, .text "a", .text "ab"] =
        (.ok .proceed, machine.holding values) := by
  intro machine values perform
  have bounded : values.length ≤ machine.state.capacity := by decide
  obtain ⟨copies, reverses, _, _, _, _, _, characters⟩ :=
    repetition_closed_form machine values (.text "x") (.text "ab") bounded
  have two : rounds (Value.text "ab").count = 2 := characters "ab" rfl (by decide)
  rw [two] at copies reverses
  obtain ⟨reversed, restored⟩ := reverses (by decide)
  exact ⟨bounded, copies, reversed, restored⟩

end ShortO

end Esoterica
