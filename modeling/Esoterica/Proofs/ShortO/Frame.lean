import Esoterica.Proofs.ShortO.Bound

/-!
# Values below the stack are out of reach

A run that is carried out on its own stack is carried out alike when there are more values below
that stack, and as much more room: an action takes values from the top and puts values on the top,
and it comes to what lies below only where it would have found its own stack empty. One operator is
different, because it does not take what it reads: the one that measures the stack.

Actions are put together from primitive ones, so this is proved of the primitives and of sequences,
then of every token, and then of runs, token by token.
-/

namespace Esoterica

namespace ShortO

/-- The stack with other values below its own, and with room for them. -/
def Stack.raise (stack : Stack) (base : Array Value) : Stack where
  values := base ++ stack.values
  capacity := stack.capacity + base.size

end ShortO

open ShortO in
/-- The machine with other values below its stack. -/
def Machine.raise (machine : Machine Token Stack) (base : Array Value) : Machine Token Stack :=
  { machine with state := machine.state.raise base }

open ShortO in
/-- The step of a machine with other values below its stack. -/
def PlainStep.raise (step : PlainStep Token Stack) (base : Array Value) : PlainStep Token Stack :=
  { step with machine := step.machine.raise base }

namespace ShortO

open Instruction StackAction

namespace Stack

variable (stack : Stack) (base : Array Value)

theorem isFull_raise : (stack.raise base).isFull = stack.isFull := by
  simp only [isFull, raise, Array.size_append, decide_eq_decide]
  omega

theorem push_raise (value : Value) :
    (stack.raise base).push value = (stack.push value).raise base := by
  simp [push, raise]

variable {stack base}

theorem top_raise {value : Value} (top : stack.top? = some value) :
    (stack.raise base).top? = some value := by
  simp only [top?] at top
  simp [top?, raise, top]

theorem pop_raise {value : Value} (top : stack.top? = some value) :
    (stack.raise base).pop = stack.pop.raise base := by
  rcases Array.back?_eq_some_iff.mp top with ⟨below, values⟩
  simp [pop, raise, values, ← Array.push_append]

end Stack

/-! ### Actions -/

namespace StackAction

variable {α β : Type}

def raiseResult (base : Array Value) :
    EStateM.Result Fault (Machine Token Stack) α → EStateM.Result Fault (Machine Token Stack) α
  | .ok value machine => .ok value (machine.raise base)
  | .error fault machine => .error fault (machine.raise base)

/-- Unless it finds its stack empty, the action does the same with other values below. -/
def Framed (action : StackAction α) : Prop :=
  ∀ base machine, (∀ after, action machine ≠ .error .emptyStack after) →
    action (machine.raise base) = raiseResult base (action machine)

theorem Framed.bind {first : StackAction α} {rest : α → StackAction β} (framed : first.Framed)
    (restFramed : ∀ value, (rest value).Framed) : (first >>= rest).Framed := by
  intro base machine nonempty
  simp only [Bind.bind, EStateM.bind] at nonempty ⊢
  cases executed : first machine with
  | ok value middle =>
      have raised := framed base machine (by simp [executed])
      simp only [executed] at nonempty raised
      simp only [raised, raiseResult]
      exact restFramed value base middle nonempty
  | error fault middle =>
      simp only [executed] at nonempty
      have raised := framed base machine (by simpa [executed] using nonempty)
      simp only [executed] at raised
      simp only [raised, raiseResult]

/-- A look at the machine is harmless if it is not at the stack. -/
theorem Framed.get_bind {rest : Machine Token Stack → StackAction α}
    (overlooks : ∀ base machine, rest (machine.raise base) = rest machine)
    (framed : ∀ machine, (rest machine).Framed) : (get >>= rest).Framed := by
  intro base machine nonempty
  change rest (machine.raise base) (machine.raise base) = raiseResult base (rest machine machine)
  rw [overlooks]
  exact framed machine base machine nonempty

theorem framed_pop : pop.Framed := by
  intro base machine nonempty
  cases top : machine.state.top? with
  | none =>
      rw [pop_eq, top] at nonempty
      exact absurd rfl (nonempty machine)
  | some value =>
      rw [pop_eq, pop_eq, top, show (machine.raise base).state.top? = _ from Stack.top_raise top]
      simp only [raiseResult, Machine.raise, Stack.pop_raise top]

theorem framed_push (value : Value) : (push value).Framed := by
  intro base machine _
  have sameRoom : (machine.raise base).state.isFull = machine.state.isFull :=
    machine.state.isFull_raise base
  rw [push_eq, push_eq, sameRoom]
  split
  · rfl
  · simp only [raiseResult, Machine.raise, Stack.push_raise]

theorem framed_tryProgram (change : Program Token → Except Fault (Program Token)) :
    Framed (tryProgram change) := by
  intro base machine _
  rw [tryProgram_eq, tryProgram_eq, show (machine.raise base).program = machine.program from rfl]
  cases change machine.program with
  | ok program => rfl
  | error fault => rfl

end StackAction

/-- What does not look at the whole machine does not come to what is below the stack. -/
theorem Primitive.framed {α : Type} {action : StackAction α}
    (isPrimitive : Primitive False α action) : action.Framed := by
  cases isPrimitive with
  | look allowed => exact allowed.elim
  | pop => exact framed_pop
  | push value => exact framed_push value
  | modifyConsole | draw => exact fun _ _ _ => rfl
  | goTo | skip => exact framed_tryProgram _

theorem framed_of_composed {throws : Fault → Prop} {α : Type} {action : StackAction α}
    (composed : Composed (Primitive False) throws α action) : action.Framed := by
  induction composed with
  | primitive isPrimitive => exact isPrimitive.framed
  | pure | throw => exact fun _ _ _ => rfl
  | bind _ _ ih restIh => exact ih.bind restIh

theorem framed_jump (name : String) : (jump name).Framed := by
  apply Framed.get_bind
  · intro base machine
    rfl
  · intro machine
    split
    · exact (framed_tryProgram _).bind fun _ _ _ _ => rfl
    · exact fun _ _ _ => rfl

/-- The length of the stack tells how much lies below. -/
theorem not_framed_stackLength : ¬Operator.stackLength.apply.Framed := by
  intro framed
  let machine : Machine Token Stack :=
    { program := { tokens := #[] }, state := { capacity := 1 }, random := .zeros }
  have raised := framed #[.text ""] machine (by intro after fails; cases fails)
  have sameValues := congrArg
    (fun result => match result with
      | .ok _ after | .error _ after => after.state.values.back?) raised
  revert sameValues
  decide

theorem framed_apply_iff (operator : Operator) :
    operator.apply.Framed ↔ operator ≠ .stackLength := by
  constructor
  · rintro framed rfl
    exact not_framed_stackLength framed
  · intro other
    exact framed_of_composed (composed_apply operator fun isStackLength => other isStackLength)

/-! ### Tokens and runs -/

/-- The token does not come to what lies below the stack. -/
def Token.Overlooks (registry : Registry) (token : Token) : Prop :=
  ∀ symbol entry, token = .operator symbol → registry.find? symbol = some entry →
    entry.apply.Framed

theorem framed_execute {registry : Registry} {token : Token}
    (overlooks : token.Overlooks registry) : (execute registry token).Framed := by
  cases token with
  | text text =>
      exact framed_of_composed (composed_proceed (.primitive (.modifyConsole _)))
  | value value => exact framed_of_composed (composed_proceed (composed_push value))
  | jump name => exact framed_jump name
  | operator symbol =>
      simp only [execute]
      cases found : registry.find? symbol with
      | none => exact fun _ _ _ => rfl
      | some entry => exact overlooks symbol entry rfl found

section

variable {registry : Registry} {base : Array Value} {machine : Machine Token Stack}

theorem perform_raise {token : Token} {result : Except Fault Flow} {after : Machine Token Stack}
    (overlooks : token.Overlooks registry) (nonempty : result ≠ .error .emptyStack)
    (performs : (language registry).perform token machine = (result, after)) :
    (language registry).perform token (machine.raise base) = (result, after.raise base) := by
  have framed := framed_execute overlooks base machine
  simp only [Language.perform, language] at performs ⊢
  cases executed : execute registry token machine with
  | ok flow middle =>
      simp only [executed] at performs framed
      cases performs
      simp only [framed (by simp), raiseResult]
  | error fault middle =>
      simp only [executed] at performs framed
      cases performs
      simp only [framed (by simpa using nonempty), raiseResult]

theorem receive_raise (entry : Entry) (stack : Stack) :
    receive entry (stack.raise base) = (receive entry stack).map (·.raise base) := by
  simp only [receive, Stack.isFull_raise]
  split
  · rfl
  · simp only [Stack.push_raise, Except.map]

theorem answer_raise {answer : Answer} {received : Except Fault Unit}
    {after : Machine Token Stack}
    (answers : (language registry).answer answer machine = (received, after)) :
    (language registry).answer answer (machine.raise base) = (received, after.raise base) := by
  simp only [Language.answer, language, Machine.raise, receive_raise] at answers ⊢
  cases receives : receive answer.entry machine.state with
  | ok state =>
      simp only [receives] at answers
      cases answers
      rfl
  | error fault =>
      simp only [receives] at answers
      cases answers
      rfl

/-- The step neither comes to what lies below the stack nor finds the stack empty. -/
structure StaysAbove (registry : Registry) (step : PlainStep Token Stack) : Prop where
  overlooks : step.token.Overlooks registry
  nonempty : step.flow ≠ .error .emptyStack

theorem passes_raise {taken : List Answer} {step : PlainStep Token Stack}
    (passes : (language registry).Passes machine taken step) (stays : StaysAbove registry step) :
    (language registry).Passes (machine.raise base) taken (step.raise base) := by
  cases passes with
  | goesOn current performs onward =>
      exact .goesOn current (perform_raise stays.overlooks stays.nonempty performs) onward
  | answered current performs answers =>
      exact .answered current (perform_raise stays.overlooks stays.nonempty performs)
        (answer_raise answers)

theorem stops_raise {answers : List Answer} {steps : List (PlainStep Token Stack)}
    {ending : PlainEnd} (stops : (language registry).Stops machine answers steps ending)
    (stay : ∀ step ∈ steps, StaysAbove registry step) :
    (language registry).Stops (machine.raise base) answers (steps.map (·.raise base)) ending := by
  cases stops with
  | finished atEnd => exact .finished atEnd
  | failed current performs =>
      rcases stay _ List.mem_cons_self with ⟨overlooks, nonempty⟩
      exact .failed current (perform_raise overlooks nonempty performs)
  | halted current performs =>
      rcases stay _ List.mem_cons_self with ⟨overlooks, nonempty⟩
      exact .halted current (perform_raise overlooks nonempty performs)
  | starved current performs =>
      rcases stay _ List.mem_cons_self with ⟨overlooks, nonempty⟩
      exact .starved current (perform_raise overlooks nonempty performs)

theorem plainRun_raise {limit : Nat} {answers : List Answer}
    (stay : ∀ step ∈ ((language registry).plainRun limit answers machine).1,
      StaysAbove registry step) :
    (language registry).plainRun limit answers (machine.raise base) =
      (((language registry).plainRun limit answers machine).1.map (·.raise base),
        ((language registry).plainRun limit answers machine).2) := by
  induction limit generalizing answers machine with
  | zero => rfl
  | succ limit ih =>
      rcases Language.passes_or_stops (language registry) machine answers with
        ⟨taken, later, step, rfl, passes⟩ | ⟨steps, ending, stops⟩
      · rw [passes.plainRun_eq] at stay ⊢
        rcases List.forall_mem_cons.mp stay with ⟨stays, stayLater⟩
        rw [(passes_raise passes stays).plainRun_eq]
        rw [show (step.raise base).machine = step.machine.raise base from rfl, ih stayLater]
        rfl
      · rw [stops.plainRun_eq] at stay ⊢
        exact (stops_raise stops stay).plainRun_eq limit

end

theorem Token.overlooks_standard {token : Token} (other : token ≠ .operator 'l') :
    token.Overlooks .standard := by
  rintro symbol entry rfl found
  rcases Registry.exists_operator_of_find found with ⟨operator, mem, rfl⟩
  apply (framed_apply_iff operator).mpr
  rintro rfl
  have isLength : symbol = 'l' := by simpa [Registry.symbols] using mem
  exact other (congrArg Token.operator isLength)

/--
Under the usual symbols, a run that executes no `l` and does not fail at an empty stack goes on in
the same way with other values below its stack and as much more room: the same tokens with the same
results, failures among them, the same counters, outputs and accepted answers, and after every token
the same stack on top of those values. Of all operators, only the one that measures the stack can
tell the difference.
-/
theorem run_framed :
    (∀ (base : Array Value) (limit : Nat) (answers : List Answer) (machine : Machine Token Stack),
      (∀ step ∈ ((language .standard).plainRun limit answers machine).1,
        step.token ≠ .operator 'l' ∧ step.flow ≠ .error .emptyStack) →
      (language .standard).plainRun limit answers (machine.raise base) =
        (((language .standard).plainRun limit answers machine).1.map (·.raise base),
          ((language .standard).plainRun limit answers machine).2)) ∧
      ∀ operator : Operator, operator.apply.Framed ↔ operator ≠ .stackLength := by
  refine ⟨?_, framed_apply_iff⟩
  intro base limit answers machine stay
  apply plainRun_raise
  intro step mem
  exact ⟨Token.overlooks_standard (stay step mem).1, (stay step mem).2⟩

/-- Two texts are joined and a line is read, all of it above a value that stays where it is. -/
theorem run_framed_of_line :
    let program : Program Token := { tokens := #[.value (.text "a"), .operator '+', .operator '_'] }
    let machine : Machine Token Stack :=
      { program, state := { values := #[.text "b"], capacity := 2 }, random := .zeros }
    let answers : List Answer := [{ entry := .text "in", line := "in" }]
    let run := (language .standard).plainRun 4 answers machine
    let raised := (language .standard).plainRun 4 answers (machine.raise #[.text "below"])
    raised = (run.1.map (·.raise #[.text "below"]), run.2) ∧
      raised.1.map (·.machine.state.values.toList) =
        [[.text "below", .text "b", .text "a"], [.text "below", .text "ba"],
          [.text "below", .text "ba", .text "in"]] := by
  intro program machine answers run raised
  have sound : run.1.all (fun step => step.token != .operator 'l' && step.flow.toOption.isSome) =
      true := by decide +kernel
  refine ⟨?_, by decide +kernel⟩
  apply run_framed.1
  intro step mem
  have soundHere := List.all_eq_true.mp sound step mem
  simp only [Bool.and_eq_true, bne_iff_ne] at soundHere
  refine ⟨soundHere.1, ?_⟩
  intro fails
  rw [fails] at soundHere
  cases soundHere.2

end ShortO

end Esoterica
