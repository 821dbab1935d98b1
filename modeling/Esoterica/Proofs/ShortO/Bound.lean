import Esoterica.Proofs.Course
import Esoterica.Proofs.Engine.Conduct

/-!
# The stack stays within its bound

No action makes the stack of a run larger than it may be, since a value is pushed only where there
is room for it. So the bound of the options holds at every moment of every session.

That a push fails is a matter of room, too. An operator that has taken values has made room for as
many, and most operators push no more than that. `Fits` counts the room that an action needs and the
room that it leaves. What cannot be counted this way is a short list: values, answers, copies,
random numbers, the length of the stack, and the codes of the characters of a text.
-/

namespace Esoterica

namespace ShortO

open Instruction StackAction

namespace Stack

variable {stack : Stack}

/-- The stack can take as many more values without being too large. -/
def HasRoom (stack : Stack) (count : Nat) : Prop :=
  stack.values.size + count ≤ stack.capacity

theorem isFull_eq_false_iff : stack.isFull = false ↔ stack.HasRoom 1 := by
  simp only [isFull, HasRoom, decide_eq_false_iff_not]
  omega

theorem HasRoom.of_le {fewer more : Nat} (room : stack.HasRoom more) (less : fewer ≤ more) :
    stack.HasRoom fewer := by
  simp only [HasRoom] at *
  omega

theorem HasRoom.push {count : Nat} (room : stack.HasRoom (count + 1)) (value : Value) :
    (stack.push value).HasRoom count := by
  simp only [HasRoom, Stack.push, Array.size_push] at *
  omega

theorem HasRoom.pop {count : Nat} {value : Value} (room : stack.HasRoom count)
    (top : stack.top? = some value) : stack.pop.HasRoom (count + 1) := by
  have nonempty : 0 < stack.values.size := by
    rcases Array.back?_eq_some_iff.mp top with ⟨below, values⟩
    simp [values]
  simp only [HasRoom, Stack.pop, Array.size_pop] at *
  omega

/-- One stack becomes the other with the same bound, and does not come to exceed it. -/
structure Stays (before after : Stack) : Prop where
  capacity_eq : after.capacity = before.capacity
  hasRoom : before.HasRoom 0 → after.HasRoom 0

theorem Stays.refl (stack : Stack) : stack.Stays stack :=
  ⟨rfl, id⟩

theorem Stays.trans {first second third : Stack} (earlier : first.Stays second)
    (later : second.Stays third) : first.Stays third :=
  ⟨later.capacity_eq.trans earlier.capacity_eq, fun room => later.hasRoom (earlier.hasRoom room)⟩

end Stack

/-! ### Every run keeps the bound -/

theorem Primitive.stays {looks : Prop} {α : Type} {action : StackAction α}
    (isPrimitive : Primitive looks α action) :
    action.Relates fun before after => before.state.Stays after.state := by
  intro machine
  cases isPrimitive with
  | look | modifyConsole | draw => exact .refl machine.state
  | pop =>
      simp only [after, pop_eq]
      cases top : machine.state.top? with
      | none => exact .refl machine.state
      | some value => exact ⟨rfl, fun room => (room.pop top).of_le (Nat.zero_le _)⟩
  | push value =>
      simp only [after, push_eq]
      cases full : machine.state.isFull with
      | true => exact .refl machine.state
      | false => exact ⟨rfl, fun _ => (Stack.isFull_eq_false_iff.mp full).push value⟩
  | goTo | skip =>
      rw [after_tryProgram_state]
      exact .refl machine.state

theorem execute_stays {registry : Registry} (ofOperators : registry.OfOperators) (token : Token) :
    ((language registry).execute token).Relates fun before after =>
      before.state.Stays after.state :=
  (composed_execute ofOperators token).relates (fun machine => .refl machine.state)
    (fun _ _ _ => .trans) fun _ _ => Primitive.stays

/-- The stack of a run has the bound of the options and does not exceed it. -/
def boundedConduct (options : Options) : Conduct Token Stack where
  mayRun run := run.state.capacity = options.maxStackSize ∧ run.state.HasRoom 0
  mayAsk _ := True
  mayFail _ := True

theorem keeps_boundedConduct {registry : Registry} (ofOperators : registry.OfOperators)
    (options : Options) : (language registry).Keeps options (boundedConduct options) where
  start source program reads := ⟨rfl, Nat.zero_le _⟩
  unreadable source error unread := trivial
  perform machine token flow after mayRun current performs := by
    have stays : machine.state.Stays after.state := by
      have relates := Language.perform_relates (execute_stays ofOperators token) machine.behind
      rwa [show (language registry).perform token machine.behind = _ from performs] at relates
    exact ⟨⟨stays.capacity_eq.trans mayRun.1, stays.hasRoom mayRun.2⟩, fun _ _ => trivial⟩
  performFails _ _ _ _ _ _ _ := trivial
  receive run request entry state mayRun mayAsk admits receives := by
    simp only [language, receive] at receives
    split at receives
    · cases receives
    · rename_i room
      cases receives
      exact ⟨mayRun.1, (Stack.isFull_eq_false_iff.mp (Bool.eq_false_iff.mpr room)).push _⟩
  receiveFails _ _ _ _ _ _ _ _ _ _ := trivial
  finishFails _ _ _ _ _ _ := trivial

/-! ### The room that an action needs -/

namespace StackAction

variable {α β : Type}

/-- With some room the action does not fail for want of it, and then it leaves some. -/
def Fits (action : StackAction α) (needed : Nat) (left : α → Nat) : Prop :=
  ∀ machine, machine.state.HasRoom needed →
    match action machine with
    | .ok value after => after.state.HasRoom (left value)
    | .error fault _ => fault ≠ .fullStack

theorem Fits.ne_fullStack {action : StackAction α} {needed : Nat} {left : α → Nat}
    {machine after : Machine Token Stack} (fits : action.Fits needed left)
    (room : machine.state.HasRoom needed) : action machine ≠ .error .fullStack after := by
  intro fails
  have := fits machine room
  rw [fails] at this
  exact this rfl

theorem Fits.of_le {action : StackAction α} {needed more : Nat} {left : α → Nat}
    (fits : action.Fits needed left) (less : needed ≤ more) : action.Fits more left :=
  fun machine room => fits machine (room.of_le less)

theorem Fits.bind {first : StackAction α} {rest : α → StackAction β} {needed : Nat}
    {between : α → Nat} {left : β → Nat} (fits : first.Fits needed between)
    (restFits : ∀ value, (rest value).Fits (between value) left) :
    (first >>= rest).Fits needed left := by
  intro machine room
  have fitsHere := fits machine room
  simp only [Bind.bind, EStateM.bind]
  cases executed : first machine with
  | ok value middle =>
      rw [executed] at fitsHere
      exact restFits value middle fitsHere
  | error fault middle =>
      rw [executed] at fitsHere
      exact fitsHere

theorem Fits.get_bind {rest : Machine Token Stack → StackAction α} {needed : Nat} {left : α → Nat}
    (fits : ∀ machine, (rest machine).Fits needed left) : (get >>= rest).Fits needed left :=
  fun machine room => fits machine machine room

theorem fits_pure (value : α) (left : α → Nat) : Fits (pure value) (left value) left :=
  fun _ room => room

theorem fits_throw {fault : Fault} (other : fault ≠ .fullStack) (needed : Nat) (left : α → Nat) :
    Fits (throw fault) needed left :=
  fun _ _ => other

theorem fits_pop (room : Nat) : Fits pop room fun _ => room + 1 := by
  intro machine hasRoom
  rw [pop_eq]
  cases top : machine.state.top? with
  | some value => exact hasRoom.pop top
  | none => simp

theorem fits_push (value : Value) (room : Nat) : Fits (push value) (room + 1) fun _ => room := by
  intro machine hasRoom
  have notFull : machine.state.isFull = false :=
    Stack.isFull_eq_false_iff.mpr (hasRoom.of_le (by omega))
  rw [push_eq, notFull]
  exact hasRoom.push value

theorem fits_modifyConsole (change : Console → Console) (room : Nat) :
    Fits (modifyConsole change) room fun _ => room :=
  fun _ hasRoom => hasRoom

theorem fits_tryProgram {change : Program Token → Except Fault (Program Token)}
    (fails : ∀ program fault, change program = .error fault → fault ≠ .fullStack) (room : Nat) :
    Fits (tryProgram change) room fun _ => room := by
  intro machine hasRoom
  rw [tryProgram_eq]
  cases changed : change machine.program with
  | ok program => exact hasRoom
  | error fault => exact fails _ _ changed

theorem fits_goTo (index room : Nat) : Fits (tryProgram (·.goTo index)) room fun _ => room := by
  apply fits_tryProgram
  intro program fault fails
  rcases Program.goTo_fault fails with ⟨target, rfl⟩
  simp

theorem fits_skip (offset : Int) (room : Nat) :
    Fits (tryProgram (·.skip offset)) room fun _ => room := by
  apply fits_tryProgram
  intro program fault fails
  rcases Program.skip_fault fails with ⟨target, rfl⟩
  simp

theorem fits_popPair (room : Nat) : Fits popPair room fun _ => room + 2 := by
  apply (fits_pop room).bind
  intro right
  apply (fits_pop (room + 1)).bind
  intro left
  exact fits_pure (left, right) fun _ => room + 2

theorem fits_pushAll (values : List Value) : Fits (pushAll values) values.length fun _ => 0 := by
  induction values with
  | nil => exact fits_pure () fun _ => 0
  | cons value rest ih => exact (fits_push value rest.length).bind fun _ => ih

/-- Values that are taken leave room for all of them. -/
theorem fits_popTimes (taken : List Value) (count : Nat) :
    Fits (popTimes taken count) taken.length List.length := by
  induction count generalizing taken with
  | zero => exact fits_pure taken List.length
  | succ count ih => exact (fits_pop taken.length).bind fun value => ih (value :: taken)

theorem fits_checkLength (symbol : Char) (left right : Value) (requested room : Nat) :
    Fits (checkLength symbol left right requested) room fun _ => room := by
  unfold checkLength
  split
  · exact fits_throw (by simp) room _
  · exact fits_pure () fun _ => room

theorem fits_mapTop (change : Value → Value) : Fits (mapTop change) 0 fun _ => 0 :=
  (fits_pop 0).bind fun _ => fits_push _ 0

theorem fits_arithmetic (operation : Binary64 → Binary64 → Binary64) :
    Fits (arithmetic operation) 0 fun _ => 1 := by
  apply (fits_popPair 0).bind
  rintro ⟨left, right⟩
  split
  · exact fits_push _ 1
  · exact fits_push _ 1

theorem fits_add : Fits StackAction.add 0 fun _ => 1 := by
  apply (fits_popPair 0).bind
  rintro ⟨left, right⟩
  split
  · exact fits_push _ 1
  · exact (fits_checkLength _ _ _ _ 2).bind fun _ => fits_push _ 1

theorem fits_multiplyText (left right : Value) (text : String) (number : Binary64) :
    Fits (multiplyText left right text number) 2 fun _ => 1 :=
  (fits_checkLength _ _ _ _ 2).bind fun _ => fits_push _ 1

theorem fits_multiply : Fits StackAction.multiply 0 fun _ => 1 := by
  apply (fits_popPair 0).bind
  rintro ⟨left, right⟩
  split
  · exact fits_push _ 1
  · exact fits_push _ 1
  · exact fits_multiplyText _ _ _ _
  · exact fits_multiplyText _ _ _ _

theorem fits_skipIf : Fits StackAction.skipIf 0 fun _ => 2 := by
  apply (fits_pop 0).bind
  intro amount
  apply (fits_pop 1).bind
  intro condition
  split
  · exact fits_skip _ 2
  · exact fits_pure () fun _ => 2

theorem fits_proceed {action : StackAction α} {needed : Nat} {left : α → Nat}
    (fits : action.Fits needed left) :
    Fits (action >>= fun _ => pure Flow.proceed) needed fun _ => 0 :=
  fits.bind fun _ => (fits_pure Flow.proceed fun _ => 0).of_le (Nat.zero_le _)

end StackAction

/-- Operators push at most what they have taken, with four exceptions. -/
theorem fits_apply {operator : Operator} (noCopy : operator ≠ .copy) (noRandom : operator ≠ .random)
    (noStackLength : operator ≠ .stackLength) (noCharacterCodes : operator ≠ .characterCodes) :
    operator.apply.Fits 0 fun _ => 0 := by
  cases operator with
  | copy => exact absurd rfl noCopy
  | random => exact absurd rfl noRandom
  | stackLength => exact absurd rfl noStackLength
  | characterCodes => exact absurd rfl noCharacterCodes
  | add => exact fits_proceed fits_add
  | multiply => exact fits_proceed fits_multiply
  | divide | remainder => exact fits_proceed (fits_arithmetic _)
  | toNumber | toCharacter | not | toText | isText | length | floor =>
      exact fits_proceed (fits_mapTop _)
  | subtract | compare => exact (fits_popPair 0).bind fun _ => fits_proceed (fits_push _ 1)
  | print | deleteOutput => exact (fits_pop 0).bind fun _ => fits_proceed (fits_modifyConsole _ 1)
  | drop => exact fits_proceed (fits_pop 0)
  | skipIf => exact fits_proceed fits_skipIf
  | readCharacter | readText | readNumber => exact fits_pure _ fun _ => 0
  | clearOutput => exact fits_proceed (fits_modifyConsole _ 0)
  | reverse =>
      apply (fits_pop 0).bind
      intro count
      apply ((fits_popTimes [] _).of_le (Nat.zero_le _)).bind
      intro taken
      rw [← List.length_reverse]
      exact fits_proceed (fits_pushAll taken.reverse)
  | or =>
      apply (fits_pop 0).bind
      intro value
      split
      · exact fits_proceed (fits_push _ 0)
      · exact (fits_pop 1).bind fun _ => fits_proceed (fits_push _ 1)
  | and =>
      apply (fits_pop 0).bind
      intro value
      split
      · exact (fits_pop 1).bind fun _ => fits_proceed (fits_push _ 1)
      · exact fits_proceed (fits_push _ 0)

theorem fits_jump (name : String) : (jump name).Fits 0 fun _ => 0 := by
  apply Fits.get_bind
  intro machine
  split
  · exact (fits_goTo _ 0).bind fun _ => fits_pure _ fun _ => 0
  · exact fits_throw (by simp) 0 _

/-- The codes of characters need room only if they are those of a text. -/
theorem top_of_characterCodes_fullStack {machine after : Machine Token Stack}
    (room : machine.state.HasRoom 0)
    (fails : Operator.characterCodes.apply machine = .error .fullStack after) :
    ∃ text, machine.state.top? = some (.text text) := by
  simp only [Operator.apply, StackAction.characterCodes, bind_assoc] at fails
  simp only [Bind.bind, EStateM.bind, pop_eq] at fails
  cases top : machine.state.top? with
  | none =>
      simp only [top] at fails
      cases fails
  | some value =>
      cases value with
      | text text => exact ⟨text, rfl⟩
      | number number =>
          simp only [top] at fails
          have fits := fits_proceed (fits_push (.number number) 0)
          exact absurd fails (fits.ne_fullStack (room.pop top))

theorem Operator.exceptional_of_fullStack {operator : Operator}
    {machine after : Machine Token Stack} (room : machine.state.HasRoom 0)
    (fails : operator.apply machine = .error .fullStack after) :
    operator = .copy ∨ operator = .random ∨ operator = .stackLength ∨
      operator = .characterCodes ∧ ∃ text, machine.state.top? = some (.text text) := by
  by_cases isCopy : operator = .copy
  · exact Or.inl isCopy
  · by_cases isRandom : operator = .random
    · exact Or.inr (Or.inl isRandom)
    · by_cases isStackLength : operator = .stackLength
      · exact Or.inr (Or.inr (Or.inl isStackLength))
      · by_cases isCharacterCodes : operator = .characterCodes
        · subst isCharacterCodes
          exact Or.inr (Or.inr (Or.inr ⟨rfl, top_of_characterCodes_fullStack room fails⟩))
        · have fits := fits_apply isCopy isRandom isStackLength isCharacterCodes
          exact absurd fails (fits.ne_fullStack room)

/-- Under the usual symbols, a push fails at values and at four operators only. -/
theorem overflows_of_fullStack {token : Token} {machine : Machine Token Stack}
    (room : machine.state.HasRoom 0)
    (fails : ((language .standard).perform token machine).1 = .error .fullStack) :
    (∃ value, token = .value value) ∨ token = .operator '^' ∨ token = .operator '?' ∨
      token = .operator 'l' ∨
      token = .operator 'N' ∧ ∃ text, machine.state.top? = some (.text text) := by
  obtain ⟨after, executes⟩ : ∃ after, execute .standard token machine = .error .fullStack after :=
    Language.exists_execute_eq_error fails
  cases token with
  | text text => cases executes
  | value value => exact Or.inl ⟨value, rfl⟩
  | jump name => exact absurd executes ((fits_jump name).ne_fullStack room)
  | operator symbol =>
      cases found : Registry.standard.find? symbol with
      | none =>
          simp only [execute, found] at executes
          cases executes
      | some entry =>
          simp only [execute, found] at executes
          rcases Registry.exists_operator_of_find found with ⟨operator, mem, rfl⟩
          rcases Operator.exceptional_of_fullStack room executes with
            rfl | rfl | rfl | ⟨rfl, onText⟩
          · have : symbol = '^' := by simpa [Registry.symbols] using mem
            simp [this]
          · have : symbol = '?' := by simpa [Registry.symbols] using mem
            simp [this]
          · have : symbol = 'l' := by simpa [Registry.symbols] using mem
            simp [this]
          · have : symbol = 'N' := by simpa [Registry.symbols] using mem
            simp [this, onText]

/-- An answer finds the stack full if as many values are on it as it may hold. -/
theorem receive_eq_fullStack_iff {entry : Entry} {stack : Stack} (room : stack.HasRoom 0) :
    receive entry stack = .error .fullStack ↔ stack.values.size = stack.capacity := by
  have within : stack.values.size ≤ stack.capacity := room
  simp only [receive, Stack.isFull, decide_eq_true_eq]
  split
  · simp only [true_iff]
    omega
  · simp only [reduceCtorEq, false_iff]
    omega

open Engine in
/--
At every moment of every session, whatever symbols the operators have, the stack of a run holds at
most as many values as the options allow. Where that is so, an answer finds the stack full exactly
if no more values fit, and of all tokens only a value, the operators `^`, `?` and `l`, and `N` on a
text can find it full; arithmetic, conversions, comparison, reversal and logic never do.
-/
theorem stack_bounded :
    (∀ (registry : Registry) (options : Options) (random : RandomStream) (observer : Observer)
        (clock : Clock) (calls : List Call) (answers : List Answer) (acts : List (Act Token))
        (before engine : Engine Token Stack) (run : Run Token Stack), registry.OfOperators →
      (create (language registry) options random observer clock).History calls answers before →
      before.Chronicle acts engine → engine.phase.run? = some run →
        run.state.values.size ≤ options.maxStackSize) ∧
      (∀ (entry : Entry) (stack : Stack), stack.values.size ≤ stack.capacity →
        (receive entry stack = .error .fullStack ↔ stack.values.size = stack.capacity)) ∧
      (∀ (token : Token) (machine : Machine Token Stack),
        machine.state.values.size ≤ machine.state.capacity →
        ((language .standard).perform token machine).1 = .error .fullStack →
          (∃ value, token = .value value) ∨ token = .operator '^' ∨ token = .operator '?' ∨
            token = .operator 'l' ∨
            token = .operator 'N' ∧ ∃ text, machine.state.top? = some (.text text)) ∧
      ∀ symbol ∈ "+-*/%~'!S=vTL|&°".toList, ∀ machine : Machine Token Stack,
        machine.state.values.size ≤ machine.state.capacity →
          ((language .standard).perform (.operator symbol) machine).1 ≠ .error .fullStack := by
  refine ⟨?_, fun _ _ bounded => receive_eq_fullStack_iff bounded, ?_, ?_⟩
  · intro registry options random observer clock calls answers acts before engine run ofOperators
      history chronicle active
    have keeps := keeps_boundedConduct ofOperators options
    have abides := chronicle.abides (history.abides (abides_create keeps random observer clock))
    rcases abides.mayEnter.mayRun active with ⟨capacity, room⟩
    rw [← capacity]
    exact room
  · intro token machine bounded fails
    exact overflows_of_fullStack bounded fails
  · intro symbol mem machine bounded fails
    rcases overflows_of_fullStack bounded fails with
      ⟨_, isValue⟩ | isCopy | isRandom | isStackLength | ⟨isCodes, _⟩
    · cases isValue
    · cases isCopy
      simp at mem
    · cases isRandom
      simp at mem
    · cases isStackLength
      simp at mem
    · cases isCodes
      simp at mem

open Engine in
/-- Two values fill the stack of a run, and the codes of the text on top do not fit into it. -/
theorem stack_bounded_of_text :
    let options : Options := { stepBudget := 2, maxStackSize := 2 }
    let fresh := create (language .standard) options .zeros {} Clock.stopped
    let engine := (fresh.start "$1\"abc\"N;").1.slice.1
    let full : Stack := { values := #[.text "1", .text "abc"], capacity := 2 }
    let machine : Machine Token Stack :=
      { program := { tokens := #[.operator 'N'] }, state := full, random := .zeros }
    engine.phase.run?.map (·.state.values.size) = some 2 ∧
      (∀ run, engine.phase.run? = some run → run.state.values.size ≤ 2) ∧
      ((language .standard).perform (.operator 'N') machine).1 = .error .fullStack ∧
      (∃ text, full.top? = some (.text text)) ∧
      ((language .standard).perform (.operator 'v') machine).1 ≠ .error .fullStack := by
  intro options fresh engine full machine
  have filled : engine.phase.run?.map (·.state.values.size) = some 2 := by decide +kernel
  have history : fresh.History _ _ engine := (History.nil.snoc (.start _)).snoc .slice
  have fails : ((language .standard).perform (.operator 'N') machine).1 = .error .fullStack := rfl
  clear_value engine
  rcases stack_bounded with ⟨bounded, _, overflows, never⟩
  refine ⟨filled, ?_, fails, ?_, never 'v' (by decide) machine (Nat.le_refl 2)⟩
  · intro run active
    exact bounded _ _ _ _ _ _ _ _ _ _ _ Registry.ofOperators_standard history .nil active
  · simpa using overflows (.operator 'N') machine (Nat.le_refl 2) fails

end ShortO

end Esoterica
