import Esoterica.Proofs.Checked
import Esoterica.Proofs.Course

/-!
# Jumps are exact

Four orders move the counter of a program: to take the next token, to start again, to continue at an
index and to continue a number of tokens further on. A jump succeeds if and only if its target is a
position of the program, as an integer, and one that fails changes nothing but reports the target.

Indices and offsets are words of 64 bits, and the orders can be followed in such words alone: the
target of a relative jump is then a checked sum of two signed words, and its cast to an unsigned one
is the index to continue at. In a program that has less than `2 ^ 63` tokens this comes to the same.
-/

namespace Esoterica

/-- The machine with its counter at another position. -/
def Machine.withCounter {Token State : Type} (machine : Machine Token State) (counter : Nat) :
    Machine Token State :=
  { machine with program := { machine.program with counter } }

/-- The machine after an instruction that succeeds or fails. -/
def Instruction.leaves {Token State α : Type} (action : Instruction Token State α)
    (machine : Machine Token State) : Machine Token State :=
  match action machine with
  | .ok _ machine => machine
  | .error _ machine => machine

/-- What moves the counter of a program. -/
inductive Order where
  | next
  | rewind
  | goTo (index : UInt64)
  | skip (offset : Int64)
deriving DecidableEq

namespace Order

variable {Token State : Type}

/-- Follows an order; what is given back is the token that was taken, if any. -/
def instruction : Order → Instruction Token State (Option Token)
  | next => do
    let (token?, program) := (← get).program.next
    modify fun machine => { machine with program }
    return token?
  | rewind => do
    modify fun machine => { machine with program := machine.program.rewind }
    return none
  | goTo index => do
    Instruction.tryProgram (·.goTo index.toNat)
    return none
  | skip offset => do
    Instruction.tryProgram (·.skip offset.toInt)
    return none

/-! ### Orders in words -/

/-- Puts a word into the counter. -/
def setCounter (counter : UInt64) : Instruction Token State Unit :=
  modify (·.withCounter counter.toNat)

/-- Continues at a word, unless the length of the program is less. -/
def goToWord (index : UInt64) : Instruction Token State Unit := do
  let program := (← get).program
  if UInt64.ofNat program.tokens.size < index then
    throw (.jumpOutOfRange index.toInt64.toInt)
  else
    setCounter index

/-- Continues at the sum of two signed words, unless it overflows or is negative. -/
def skipWord (offset : Int64) : Instruction Token State Unit := do
  let counter := UInt64.ofNat (← get).program.counter
  match Checked.add? counter.toInt64 offset with
  | none => throw (.jumpOutOfRange Int64.maxValue.toInt)
  | some target =>
    if target < 0 then throw (.jumpOutOfRange target.toInt)
    else goToWord target.toUInt64

/-- Follows an order with a counter, a length and targets of 64 bits. -/
def inWords : Order → Instruction Token State (Option Token)
  | next => do
    let program := (← get).program
    let counter := UInt64.ofNat program.counter
    match program.tokens[counter.toNat]? with
    | none => return none
    | some token =>
      setCounter (counter + 1)
      return some token
  | rewind => do
    setCounter 0
    return none
  | goTo index => do
    goToWord index
    return none
  | skip offset => do
    skipWord offset
    return none

end Order

namespace Machine

variable {Token State : Type}

/-- The machine after orders that are followed in turn, also behind those that fail. -/
def follow (follows : Order → Instruction Token State (Option Token))
    (machine : Machine Token State) (orders : List Order) : Machine Token State :=
  orders.foldl (fun machine order => (follows order).leaves machine) machine

end Machine

/-! ### Jumps of a program -/

namespace Program

variable {Token : Type} {program : Program Token}

theorem goTo_eq (program : Program Token) (index : UInt64) :
    program.goTo index.toNat =
      if index.toNat ≤ program.tokens.size then .ok { program with counter := index.toNat }
      else .error (.jumpOutOfRange index.toInt64.toInt) := by
  rw [Checked.toInt_toInt64]
  rfl

theorem skip_of_tooFar {offset : Int} (tooFar : greatestTarget < program.counter + offset) :
    program.skip offset = .error (.jumpOutOfRange greatestTarget) :=
  if_pos tooFar

theorem skip_of_negative {offset : Int} (negative : program.counter + offset < 0) :
    program.skip offset = .error (.jumpOutOfRange (program.counter + offset)) := by
  have greatest : 0 ≤ greatestTarget := by decide
  exact (if_neg (by omega)).trans (if_pos negative)

theorem skip_of_target {offset : Int} (nonneg : 0 ≤ program.counter + offset)
    (near : program.counter + offset ≤ greatestTarget) :
    program.skip offset = program.goTo (program.counter + offset).toNat :=
  (if_neg (Int.not_lt.mpr near)).trans (if_neg (Int.not_lt.mpr nonneg))

/-- The target is a position of the program, or it is reported as far as there are targets. -/
theorem skip_eq (addressable : program.tokens.size ≤ 0x7FFFFFFFFFFFFFFF) (offset : Int) :
    program.skip offset =
      if 0 ≤ program.counter + offset ∧ program.counter + offset ≤ program.tokens.size then
        .ok { program with counter := (program.counter + offset).toNat }
      else
        .error (.jumpOutOfRange
          (if greatestTarget < program.counter + offset then greatestTarget
          else program.counter + offset)) := by
  have greatest : greatestTarget = 0x7FFFFFFFFFFFFFFF := rfl
  by_cases tooFar : greatestTarget < program.counter + offset
  · rw [skip_of_tooFar tooFar, if_neg (by omega), if_pos tooFar]
  · rw [if_neg tooFar]
    by_cases negative : program.counter + offset < 0
    · rw [skip_of_negative negative, if_neg (by omega)]
    · rw [skip_of_target (by omega) (by omega)]
      generalize isTarget : (program.counter + offset).toNat = target
      have whole : program.counter + offset = target := by omega
      rw [whole]
      unfold goTo
      by_cases inside : target ≤ program.tokens.size
      · rw [if_pos inside, if_pos (by omega)]
      · have size : UInt64.size = 0x10000000000000000 := rfl
        have same : Int.bmod target UInt64.size = target :=
          Int.bmod_eq_of_le_mul_two (by omega) (by omega)
        rw [if_neg inside, if_neg (by omega), same]

end Program

/-! ### Single orders -/

namespace Order

variable {Token State : Type} {machine : Machine Token State}

theorem get_eq (machine : Machine Token State) :
    (get : Instruction Token State (Machine Token State)) machine = .ok machine machine :=
  rfl

theorem instruction_next_of_current {token : Token}
    (current : machine.program.current? = some token) :
    next.instruction machine =
      .ok (some token) (machine.withCounter (machine.program.counter + 1)) := by
  simp only [instruction, bind, EStateM.bind, get_eq, Program.next_of_current current]
  rfl

theorem instruction_next_of_atEnd (atEnd : machine.program.current? = none) :
    next.instruction machine = .ok none machine := by
  simp only [instruction, bind, EStateM.bind, get_eq, Program.next_of_atEnd atEnd]
  rfl

/-- A jump leads to a position, or it fails and leaves the machine. -/
theorem jump_eq {change : Program Token → Except Fault (Program Token)} {possible : Prop}
    [Decidable possible] {counter : Nat} {fault : Fault}
    (changes : change machine.program =
      if possible then .ok { machine.program with counter } else .error fault) :
    (do Instruction.tryProgram change; return none : Instruction Token State (Option Token))
        machine =
      if possible then .ok none (machine.withCounter counter) else .error fault machine := by
  simp only [bind, EStateM.bind, Instruction.tryProgram_eq, changes]
  by_cases isPossible : possible
  · simp only [if_pos isPossible]
    rfl
  · simp only [if_neg isPossible]

theorem instruction_goTo (machine : Machine Token State) (index : UInt64) :
    (goTo index).instruction machine =
      if index.toNat ≤ machine.program.tokens.size then
        .ok none (machine.withCounter index.toNat)
      else
        .error (.jumpOutOfRange index.toInt64.toInt) machine :=
  jump_eq (machine.program.goTo_eq index)

theorem instruction_skip (addressable : machine.program.tokens.size ≤ 0x7FFFFFFFFFFFFFFF)
    (offset : Int64) :
    let target := machine.program.counter + offset.toInt
    (skip offset).instruction machine =
      if 0 ≤ target ∧ target ≤ machine.program.tokens.size then
        .ok none (machine.withCounter target.toNat)
      else
        .error (.jumpOutOfRange (if greatestTarget < target then greatestTarget else target))
          machine :=
  jump_eq (Program.skip_eq addressable offset.toInt)

/-- An order moves the counter inside the program, or nothing at all. -/
theorem exists_leaves (addressable : machine.program.tokens.size ≤ 0x7FFFFFFFFFFFFFFF)
    (inside : machine.program.Inside) (order : Order) :
    ∃ counter ≤ machine.program.tokens.size,
      (order.instruction : Instruction Token State (Option Token)).leaves machine =
        machine.withCounter counter := by
  have stays : ∃ counter ≤ machine.program.tokens.size, machine = machine.withCounter counter :=
    ⟨machine.program.counter, inside, rfl⟩
  unfold Instruction.leaves
  cases order with
  | next =>
      cases current : machine.program.current? with
      | none =>
          rw [instruction_next_of_atEnd current]
          exact stays
      | some token =>
          rw [instruction_next_of_current current]
          exact ⟨machine.program.counter + 1, Program.inside_step current, rfl⟩
  | rewind => exact ⟨0, Nat.zero_le _, rfl⟩
  | goTo index =>
      rw [instruction_goTo]
      by_cases possible : index.toNat ≤ machine.program.tokens.size
      · rw [if_pos possible]
        exact ⟨index.toNat, possible, rfl⟩
      · rw [if_neg possible]
        exact stays
  | skip offset =>
      rw [instruction_skip addressable]
      by_cases possible : 0 ≤ machine.program.counter + offset.toInt ∧
          machine.program.counter + offset.toInt ≤ machine.program.tokens.size
      · rw [if_pos possible]
        exact ⟨(machine.program.counter + offset.toInt).toNat, by omega, rfl⟩
      · rw [if_neg possible]
        exact stays

theorem goToWord_eq (addressable : machine.program.tokens.size ≤ 0x7FFFFFFFFFFFFFFF)
    (index : UInt64) :
    goToWord index machine =
      (Instruction.tryProgram (·.goTo index.toNat) : Instruction Token State Unit) machine := by
  have beyond : UInt64.ofNat machine.program.tokens.size < index ↔
      machine.program.tokens.size < index.toNat := by
    rw [UInt64.lt_iff_toNat_lt, Checked.toNat_ofNat_of_le addressable]
  simp only [goToWord, bind, EStateM.bind, get_eq, Instruction.tryProgram_eq, Program.goTo_eq,
    beyond]
  by_cases inside : index.toNat ≤ machine.program.tokens.size
  · simp only [if_pos inside, if_neg (Nat.not_lt.mpr inside)]
    rfl
  · simp only [if_neg inside, if_pos (Nat.not_le.mp inside)]
    rfl

/-- The sum of counter and offset can overflow at the upper end only. -/
theorem skipWord_eq (addressable : machine.program.tokens.size ≤ 0x7FFFFFFFFFFFFFFF)
    (inside : machine.program.Inside) (offset : Int64) :
    skipWord offset machine =
      (Instruction.tryProgram (·.skip offset.toInt) : Instruction Token State Unit) machine := by
  have least := offset.le_toInt
  have greatest : greatestTarget = 0x7FFFFFFFFFFFFFFF := rfl
  have small : machine.program.counter ≤ 0x7FFFFFFFFFFFFFFF := Nat.le_trans inside addressable
  have counter :
      (UInt64.ofNat machine.program.counter).toInt64.toInt = machine.program.counter := by
    have unsigned := Checked.toNat_ofNat_of_le small
    rw [Checked.toInt_toInt64_of_le (by rwa [unsigned]), unsigned]
  simp only [skipWord, bind, EStateM.bind, get_eq, Checked.add?, counter]
  by_cases tooFar : greatestTarget < machine.program.counter + offset.toInt
  · have overflows : Checked.ofInt? (machine.program.counter + offset.toInt) = none :=
      Checked.ofInt?_eq_none (.inr (by omega))
    simp only [overflows, Instruction.tryProgram_eq, Program.skip_of_tooFar tooFar]
    rfl
  · obtain ⟨target, hasTarget, isTarget⟩ :=
      Checked.exists_ofInt? (machine.program.counter + offset.toInt) (by omega) (by omega)
    have zero : (0 : Int64).toInt = 0 := rfl
    simp only [hasTarget, Int64.lt_iff_toInt_lt, zero]
    by_cases negative : target.toInt < 0
    · rw [isTarget] at negative
      simp only [isTarget, if_pos negative, Instruction.tryProgram_eq,
        Program.skip_of_negative negative]
      rfl
    · have nonneg : 0 ≤ target := Int64.le_iff_toInt_le.mpr (by omega)
      have index : target.toUInt64.toNat = target.toInt.toNat := Int64.toNat_toUInt64_of_le nonneg
      have goes : machine.program.skip offset.toInt =
          machine.program.goTo (machine.program.counter + offset.toInt).toNat :=
        Program.skip_of_target (by omega) (by omega)
      rw [if_neg negative, goToWord_eq addressable, index, isTarget]
      simp only [Instruction.tryProgram_eq, goes]

/-- In a program that is not too long an order comes to the same in words. -/
theorem inWords_eq (addressable : machine.program.tokens.size ≤ 0x7FFFFFFFFFFFFFFF)
    (inside : machine.program.Inside) (order : Order) :
    (order.inWords : Instruction Token State (Option Token)) machine =
      order.instruction machine := by
  cases order with
  | next =>
      have counter := Checked.toNat_ofNat_of_le (Nat.le_trans inside addressable)
      simp only [inWords, bind, EStateM.bind, get_eq, counter]
      cases current : machine.program.current? with
      | none =>
          have nothing : machine.program.tokens[machine.program.counter]? = none := current
          rw [instruction_next_of_atEnd current, nothing]
          rfl
      | some token =>
          have stands : machine.program.tokens[machine.program.counter]? = some token := current
          rw [instruction_next_of_current current, stands]
          have less : machine.program.counter + 1 ≤ machine.program.tokens.size :=
            Program.inside_step current
          have word : (UInt64.ofNat machine.program.counter + 1).toNat =
              machine.program.counter + 1 := by
            have one : (1 : UInt64).toNat = 1 := rfl
            rw [UInt64.toNat_add, counter, one]
            omega
          rw [← word]
          rfl
  | rewind => rfl
  | goTo index => simp only [inWords, instruction, bind, EStateM.bind, goToWord_eq addressable]
  | skip offset =>
      simp only [inWords, instruction, bind, EStateM.bind, skipWord_eq addressable inside]

end Order

/-! ### Runs -/

namespace Machine

variable {Token State : Type}

/-- Orders move the counter inside the program, with words as with integers. -/
theorem exists_follow (machine : Machine Token State)
    (addressable : machine.program.tokens.size ≤ 0x7FFFFFFFFFFFFFFF)
    (inside : machine.program.Inside) (orders : List Order) :
    ∃ counter ≤ machine.program.tokens.size,
      machine.follow Order.instruction orders = machine.withCounter counter ∧
        machine.follow Order.inWords orders = machine.withCounter counter := by
  induction orders generalizing machine with
  | nil => exact ⟨machine.program.counter, inside, rfl, rfl⟩
  | cons order later ih =>
      obtain ⟨between, insideToo, leaves⟩ := Order.exists_leaves addressable inside order
      have leavesInWords : (order.inWords : Instruction Token State (Option Token)).leaves machine =
          machine.withCounter between := by
        rw [← leaves]
        unfold Instruction.leaves
        rw [Order.inWords_eq addressable inside]
      obtain ⟨counter, insideLast, follows, followsInWords⟩ :=
        ih (machine.withCounter between) addressable insideToo
      refine ⟨counter, insideLast, ?_, ?_⟩
      · exact (congrArg (follow Order.instruction · later) leaves).trans follows
      · exact (congrArg (follow Order.inWords · later) leavesInWords).trans followsInWords

/--
After any orders to the machine of a program of less than `2 ^ 63` tokens, its counter is at a token
or just behind the last one, and nothing else has changed. The orders could be followed in words of
64 bits, and so can every further one, with the same result. Where there is a next token, it is
given and the counter moves behind it; at the end nothing is given and nothing changes. A jump to an
index succeeds if and only if the index is at most the number of tokens, and a relative jump if and
only if its target is, as an integer, between zero and that number; the counter is then at the
target. A jump that fails leaves the machine as it is and reports its target: the index as a signed
integer of 64 bits, or the target itself, or the greatest such integer if the target is beyond it.
-/
theorem jumps_exact_atomic {tokens : Array Token}
    (addressable : tokens.size ≤ 0x7FFFFFFFFFFFFFFF) (markers : Markers) (state : State)
    (console : Console) (random : RandomStream) (orders : List Order) :
    let start : Machine Token State := { program := { tokens, markers }, state, console, random }
    let machine := start.follow Order.instruction orders
    let counter := machine.program.counter
    machine = start.withCounter counter ∧ counter ≤ tokens.size ∧
      start.follow Order.inWords orders = machine ∧
      (∀ order : Order, order.inWords machine = order.instruction machine) ∧
      (counter < tokens.size → ∃ token, tokens[counter]? = some token ∧
        Order.next.instruction machine = .ok (some token) (machine.withCounter (counter + 1))) ∧
      (counter = tokens.size → Order.next.instruction machine = .ok none machine) ∧
      Order.rewind.instruction machine = .ok none (machine.withCounter 0) ∧
      (∀ index : UInt64, (Order.goTo index).instruction machine =
        if index.toNat ≤ tokens.size then .ok none (machine.withCounter index.toNat)
        else .error (.jumpOutOfRange index.toInt64.toInt) machine) ∧
      ∀ offset : Int64,
        let target := counter + offset.toInt
        (Order.skip offset).instruction machine =
          if 0 ≤ target ∧ target ≤ tokens.size then .ok none (machine.withCounter target.toNat)
          else
            .error (.jumpOutOfRange (if greatestTarget < target then greatestTarget else target))
              machine := by
  intro start machine counter
  obtain ⟨reached, inside, follows, followsInWords⟩ :=
    start.exists_follow addressable (Nat.zero_le _) orders
  have isReached : machine = start.withCounter reached := follows
  have counted : counter = reached := congrArg (·.program.counter) isReached
  have isStart : machine = start.withCounter counter := by rw [counted, isReached]
  have sameTokens : machine.program.tokens = tokens := congrArg (·.program.tokens) isReached
  have addressableToo : machine.program.tokens.size ≤ 0x7FFFFFFFFFFFFFFF := sameTokens ▸ addressable
  have bounded : counter ≤ tokens.size := by
    rw [counted]
    exact inside
  have insideToo : machine.program.Inside := by
    unfold Program.Inside
    rw [sameTokens]
    exact bounded
  refine ⟨isStart, bounded, followsInWords.trans isReached.symm,
    Order.inWords_eq addressableToo insideToo, ?_, ?_, rfl, ?_, ?_⟩
  · intro less
    have stands : tokens[counter]? = some tokens[counter] := Array.getElem?_eq_getElem less
    refine ⟨_, stands, Order.instruction_next_of_current ?_⟩
    unfold Program.current?
    rw [sameTokens]
    exact stands
  · intro atEnd
    apply Order.instruction_next_of_atEnd
    unfold Program.current?
    rw [sameTokens]
    exact Array.getElem?_eq_none (Nat.le_of_eq atEnd.symm)
  · intro index
    rw [Order.instruction_goTo, sameTokens]
  · intro offset
    have skips := Order.instruction_skip addressableToo offset
    rw [sameTokens] at skips
    exact skips

/--
Among the orders are two jumps that fail, one of them behind the greatest sum. Two more fail in the
end, at the lower end of signed words and at the upper end of unsigned ones, and one goes back.
-/
theorem jumps_exact_atomic_of_extremes :
    let start : Machine Char Unit :=
      { program := { tokens := #['a', 'b', 'c'] }, state := (), random := .zeros }
    let orders := [.next, .skip Int64.maxValue, .goTo 4, .skip 1]
    let machine := start.follow Order.instruction orders
    3 ≤ 0x7FFFFFFFFFFFFFFF ∧ machine = start.withCounter 2 ∧
      start.follow Order.inWords orders = machine ∧
      (Order.skip Int64.maxValue).inWords machine =
        .error (.jumpOutOfRange greatestTarget) machine ∧
      (Order.skip Int64.minValue).instruction machine =
        .error (.jumpOutOfRange (-0x7FFFFFFFFFFFFFFE)) machine ∧
      (Order.goTo 0xFFFFFFFFFFFFFFFF).instruction machine =
        .error (.jumpOutOfRange (-1)) machine ∧
      (Order.skip (-2)).instruction machine = .ok none (machine.withCounter 0) := by
  have facts := jumps_exact_atomic (show #['a', 'b', 'c'].size ≤ 0x7FFFFFFFFFFFFFFF by decide) {} ()
    {} .zeros [.next, .skip Int64.maxValue, .goTo 4, .skip 1]
  dsimp only at facts ⊢
  generalize reached : follow Order.instruction _ _ = machine at facts ⊢
  have counter : machine.program.counter = 2 := by
    rw [← reached]
    decide +kernel
  rw [counter] at facts
  obtain ⟨isStart, _, followsInWords, inWords, _, _, _, goes, skips⟩ := facts
  refine ⟨by decide, isStart, followsInWords, ?_, ?_, ?_, ?_⟩
  · exact (inWords _).trans (skips Int64.maxValue)
  · exact skips Int64.minValue
  · exact goes 0xFFFFFFFFFFFFFFFF
  · exact skips (-2)

end Machine

end Esoterica
