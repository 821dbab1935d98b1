import Esoterica.Machine.PlainRun

/-!
# How plain runs go on

A plain run passes one token after the other until it stops. `Passage` collects the tokens passed so
far and the answers taken by them; a plain run begins with these steps, whatever its limit and
however many answers follow. Behind a passage it goes on as from the machine there.

A refused answer is recorded in the step of its token, and the plain run goes on. `verdict` says how
a run stands that stops at the first fault.
-/

namespace Esoterica

namespace Program

variable {Token : Type}

/-- The program behind its next token. -/
def step (program : Program Token) : Program Token :=
  { program with counter := program.counter + 1 }

theorem next_of_current {program : Program Token} {token : Token}
    (current : program.current? = some token) : program.next = (some token, program.step) := by
  simp [next, current, step]

theorem next_of_atEnd {program : Program Token} (atEnd : program.current? = none) :
    program.next = (none, program) := by
  simp [next, atEnd]

theorem current_of_next {program behind : Program Token} {token : Token}
    (next : program.next = (some token, behind)) :
    program.current? = some token ∧ behind = program.step := by
  cases current : program.current? with
  | none =>
      rw [next_of_atEnd current] at next
      cases next
  | some found =>
      rw [next_of_current current] at next
      cases next
      exact ⟨rfl, rfl⟩

end Program

namespace Instruction

variable {Token State : Type} {change : Program Token → Except Fault (Program Token)}

theorem tryProgram_eq (change : Program Token → Except Fault (Program Token))
    (machine : Machine Token State) :
    (tryProgram change : Instruction Token State Unit) machine =
      match change machine.program with
      | .ok program => .ok () { machine with program }
      | .error fault => .error fault machine := by
  change (match change machine.program with
    | .ok program =>
        (modify fun machine : Machine Token State => { machine with program } :
          Instruction Token State Unit)
    | .error fault => throw fault) machine = _
  cases change machine.program with
  | ok program => rfl
  | error fault => rfl

theorem tryProgram_of_ok {machine : Machine Token State} {program : Program Token}
    (changes : change machine.program = .ok program) :
    (tryProgram change : Instruction Token State Unit) machine =
      .ok () { machine with program } := by
  rw [tryProgram_eq, changes]

end Instruction

namespace Machine

variable {Token State : Type}

/-- The machine behind its next token. -/
def behind (machine : Machine Token State) : Machine Token State :=
  { machine with program := machine.program.step }

end Machine

/-- How a run stands. -/
inductive Verdict where
  | unfinished
  | waiting
  | completed
  | failed (fault : Fault)

namespace PlainEnd

/-- How a run without a fault stands at its end. -/
def verdict : PlainEnd → Verdict
  | halted | finished (.ok ()) => .completed
  | finished (.error fault) => .failed fault
  | starved => .waiting
  | limited | failed => .unfinished

end PlainEnd

namespace PlainStep

variable {Token State : Type}

/-- The fault of a token that failed or whose answer was refused. -/
def fault? (step : PlainStep Token State) : Option Fault :=
  match step.flow, step.received with
  | .error fault, _ | .ok _, some (.error fault) => some fault
  | .ok _, some (.ok ()) | .ok _, none => none

/-- How a run stands that stops at its first fault. -/
def verdict : List (PlainStep Token State) → PlainEnd → Verdict
  | [], ending => ending.verdict
  | step :: steps, ending =>
    match step.fault? with
    | some fault => .failed fault
    | none => verdict steps ending

/-- The machine after the last of some steps. -/
def lastMachine (first : Machine Token State) (steps : List (PlainStep Token State)) :
    Machine Token State :=
  (steps.getLast?.map PlainStep.machine).getD first

@[simp]
theorem lastMachine_nil (first : Machine Token State) : lastMachine first [] = first :=
  rfl

@[simp]
theorem lastMachine_singleton (first : Machine Token State) (step : PlainStep Token State) :
    lastMachine first [step] = step.machine :=
  rfl

theorem lastMachine_append (first : Machine Token State)
    (steps more : List (PlainStep Token State)) :
    lastMachine first (steps ++ more) = lastMachine (lastMachine first steps) more := by
  unfold lastMachine
  rw [List.getLast?_append]
  cases more.getLast? with
  | none => rfl
  | some step => rfl

/-- Steps without a fault do not decide how a run stands. -/
theorem verdict_append {steps : List (PlainStep Token State)}
    (faultless : ∀ step ∈ steps, step.fault? = none) (more : List (PlainStep Token State))
    (ending : PlainEnd) : verdict (steps ++ more) ending = verdict more ending := by
  induction steps with
  | nil => rfl
  | cons step steps ih =>
      simp only [List.cons_append, verdict, faultless step (by simp)]
      exact ih fun later mem => faultless later (by simp [mem])

end PlainStep

namespace Language

variable {Token State : Type}

theorem exists_execute_eq_error {language : Language Token State} {token : Token}
    {machine : Machine Token State} {fault : Fault}
    (fails : (language.perform token machine).1 = .error fault) :
    ∃ after, language.execute token machine = .error fault after := by
  simp only [perform] at fails
  split at fails
  · cases fails
  · rename_i other after executes
    cases fails
    exact ⟨after, executes⟩

/-- The next token is passed: the run goes on behind it, with the answers that it takes. -/
inductive Passes (language : Language Token State) (machine : Machine Token State) :
    List Answer → PlainStep Token State → Prop where
  | goesOn {token : Token} {flow : Flow} {after : Machine Token State}
      (current : machine.program.current? = some token)
      (performs : language.perform token machine.behind = (.ok flow, after))
      (onward : flow = .proceed ∨ flow = .yield) :
      Passes language machine [] { token, flow := .ok flow, machine := after }
  | answered {token : Token} {request : Request} {answer : Answer} {received : Except Fault Unit}
      {asked after : Machine Token State} (current : machine.program.current? = some token)
      (performs : language.perform token machine.behind = (.ok (.ask request), asked))
      (answers : language.answer answer asked = (received, after)) :
      Passes language machine [answer]
        { token, flow := .ok (.ask request), received := some received, machine := after }

/-- The run stops at the next token, given the answers that are left. -/
inductive Stops (language : Language Token State) (machine : Machine Token State) :
    List Answer → List (PlainStep Token State) → PlainEnd → Prop where
  | finished {answers : List Answer} (atEnd : machine.program.current? = none) :
      Stops language machine answers [] (.finished (language.finish machine.state))
  | failed {answers : List Answer} {token : Token} {fault : Fault} {after : Machine Token State}
      (current : machine.program.current? = some token)
      (performs : language.perform token machine.behind = (.error fault, after)) :
      Stops language machine answers [{ token, flow := .error fault, machine := after }] .failed
  | halted {answers : List Answer} {token : Token} {after : Machine Token State}
      (current : machine.program.current? = some token)
      (performs : language.perform token machine.behind = (.ok .halt, after)) :
      Stops language machine answers [{ token, flow := .ok .halt, machine := after }] .halted
  | starved {token : Token} {request : Request} {after : Machine Token State}
      (current : machine.program.current? = some token)
      (performs : language.perform token machine.behind = (.ok (.ask request), after)) :
      Stops language machine [] [{ token, flow := .ok (.ask request), machine := after }] .starved

variable {language : Language Token State} {machine : Machine Token State}

/-- The console that shows an answer, if the language keeps lines. -/
def answered (language : Language Token State) (answer : Answer) (console : Console) : Console :=
  if language.keepsLines then console.write answer.line else console

theorem answer_of_ok {answer : Answer} {state : State}
    (receives : language.receive answer.entry machine.state = .ok state) :
    language.answer answer machine =
      (.ok (), { machine with state, console := language.answered answer machine.console }) := by
  simp only [Language.answer, receives, answered]

theorem answer_of_error {answer : Answer} {fault : Fault}
    (refuses : language.receive answer.entry machine.state = .error fault) :
    language.answer answer machine =
      (.error fault, { machine with console := language.answered answer machine.console }) := by
  simp only [Language.answer, refuses, answered]

/-- With any answers, the next token is passed or stops the run. -/
theorem passes_or_stops (language : Language Token State) (machine : Machine Token State)
    (answers : List Answer) :
    (∃ taken later step, answers = taken ++ later ∧ language.Passes machine taken step) ∨
      ∃ steps ending, language.Stops machine answers steps ending := by
  cases current : machine.program.current? with
  | none => exact Or.inr ⟨_, _, .finished current⟩
  | some token =>
      rcases performs : language.perform token machine.behind with ⟨result, after⟩
      cases result with
      | error fault => exact Or.inr ⟨_, _, .failed current performs⟩
      | ok flow =>
          cases flow with
          | proceed => exact Or.inl ⟨[], answers, _, rfl, .goesOn current performs (Or.inl rfl)⟩
          | yield => exact Or.inl ⟨[], answers, _, rfl, .goesOn current performs (Or.inr rfl)⟩
          | halt => exact Or.inr ⟨_, _, .halted current performs⟩
          | ask request =>
              cases answers with
              | nil => exact Or.inr ⟨_, _, .starved current performs⟩
              | cons answer later =>
                  exact Or.inl ⟨[answer], later, _, rfl, .answered current performs rfl⟩

theorem Passes.plainRun_eq {taken : List Answer} {step : PlainStep Token State}
    (passes : language.Passes machine taken step) (limit : Nat) (later : List Answer) :
    language.plainRun (limit + 1) (taken ++ later) machine =
      (step :: (language.plainRun limit later step.machine).1,
        (language.plainRun limit later step.machine).2) := by
  cases passes with
  | goesOn current performs onward =>
      simp only [Machine.behind] at performs
      rw [plainRun]
      simp only [Program.next_of_current current, performs]
      rcases onward with rfl | rfl
      · rfl
      · rfl
  | answered current performs answers =>
      simp only [Machine.behind] at performs
      rw [plainRun]
      simp only [Program.next_of_current current, performs, List.singleton_append, answers]

theorem Stops.plainRun_eq {answers : List Answer} {steps : List (PlainStep Token State)}
    {ending : PlainEnd} (stops : language.Stops machine answers steps ending) (limit : Nat) :
    language.plainRun (limit + 1) answers machine = (steps, ending) := by
  cases stops with
  | finished atEnd =>
      rw [plainRun]
      simp only [Program.next_of_atEnd atEnd]
  | failed current performs | halted current performs | starved current performs =>
      simp only [Machine.behind] at performs
      rw [plainRun]
      simp only [Program.next_of_current current, performs]

/-- How a plain run stands after at most `limit` tokens. -/
def plainVerdict (language : Language Token State) (limit : Nat) (answers : List Answer)
    (machine : Machine Token State) : Verdict :=
  PlainStep.verdict (language.plainRun limit answers machine).1
    (language.plainRun limit answers machine).2

theorem Passes.plainVerdict_eq {taken : List Answer} {step : PlainStep Token State}
    (passes : language.Passes machine taken step) (faultless : step.fault? = none) (limit : Nat)
    (later : List Answer) :
    language.plainVerdict (limit + 1) (taken ++ later) machine =
      language.plainVerdict limit later step.machine := by
  unfold plainVerdict
  rw [passes.plainRun_eq]
  simp only [PlainStep.verdict, faultless]

/-- A plain run that has stopped stands alike after more tokens. -/
theorem plainVerdict_add {limit : Nat} {answers : List Answer}
    (stopped : language.plainVerdict limit answers machine ≠ .unfinished) (more : Nat) :
    language.plainVerdict (limit + more) answers machine =
      language.plainVerdict limit answers machine := by
  induction limit generalizing answers machine with
  | zero => exact absurd rfl stopped
  | succ limit ih =>
      rw [Nat.add_right_comm]
      unfold plainVerdict at stopped ⊢
      rcases passes_or_stops language machine answers with
        ⟨taken, later, step, rfl, passes⟩ | ⟨steps, ending, stops⟩
      · rw [passes.plainRun_eq] at stopped ⊢
        rw [passes.plainRun_eq]
        simp only [PlainStep.verdict] at stopped ⊢
        split
        · rfl
        · rename_i faultless
          simp only [faultless] at stopped
          exact ih stopped
      · rw [stops.plainRun_eq, stops.plainRun_eq]

/-- A plain run stops in one way only. -/
theorem plainVerdict_unique {left right : Nat} {answers : List Answer}
    (stoppedLeft : language.plainVerdict left answers machine ≠ .unfinished)
    (stoppedRight : language.plainVerdict right answers machine ≠ .unfinished) :
    language.plainVerdict left answers machine = language.plainVerdict right answers machine := by
  rw [← plainVerdict_add stoppedLeft right, Nat.add_comm, plainVerdict_add stoppedRight left]

/-! ### Passages -/

/-- The tokens passed so far, the answers taken by them and the machine behind them. -/
inductive Passage (language : Language Token State) (first : Machine Token State) :
    List Answer → List (PlainStep Token State) → Machine Token State → Prop where
  | nil : Passage language first [] [] first
  | snoc {answers taken : List Answer} {steps : List (PlainStep Token State)}
      {machine : Machine Token State} {step : PlainStep Token State}
      (passage : Passage language first answers steps machine)
      (passes : language.Passes machine taken step) :
      Passage language first (answers ++ taken) (steps ++ [step]) step.machine

variable {first : Machine Token State}

/-- A plain run begins with the steps of a passage and goes on from behind it. -/
theorem Passage.plainRun_eq {answers : List Answer} {steps : List (PlainStep Token State)}
    (passage : language.Passage first answers steps machine) (limit : Nat) (later : List Answer) :
    language.plainRun (steps.length + limit) (answers ++ later) first =
      (steps ++ (language.plainRun limit later machine).1,
        (language.plainRun limit later machine).2) := by
  induction passage generalizing limit later with
  | nil => simp
  | @snoc answers taken steps machine step passage passes ih =>
      have length : (steps ++ [step]).length + limit = steps.length + (limit + 1) := by
        simp
        omega
      rw [length, List.append_assoc, ih, passes.plainRun_eq]
      simp

theorem Passage.lastMachine_eq {answers : List Answer} {steps : List (PlainStep Token State)}
    (passage : language.Passage first answers steps machine) :
    PlainStep.lastMachine first steps = machine := by
  cases passage with
  | nil => rfl
  | snoc passage passes => exact PlainStep.lastMachine_append _ _ _

/-- Behind a passage without a fault, it is the machine there that decides. -/
theorem Passage.plainVerdict_eq {answers : List Answer} {steps : List (PlainStep Token State)}
    (passage : language.Passage first answers steps machine)
    (faultless : ∀ step ∈ steps, step.fault? = none) (limit : Nat) (later : List Answer) :
    language.plainVerdict (steps.length + limit) (answers ++ later) first =
      language.plainVerdict limit later machine := by
  unfold plainVerdict
  rw [passage.plainRun_eq]
  exact PlainStep.verdict_append faultless _ _

/-- A run that has come to the end of its program without a fault is where it is. -/
theorem Passage.finished {answers : List Answer} {steps : List (PlainStep Token State)}
    (passage : language.Passage first answers steps machine)
    (faultless : ∀ step ∈ steps, step.fault? = none) (atEnd : machine.program.current? = none)
    (finishes : language.finish machine.state = .ok ()) :
    language.plainVerdict (steps.length + 1) answers first = .completed ∧
      PlainStep.lastMachine first (language.plainRun (steps.length + 1) answers first).1 =
        machine := by
  have ends : language.plainRun 1 [] machine = ([], .finished (.ok ())) := by
    rw [(Stops.finished atEnd).plainRun_eq 0, finishes]
  have verdict := passage.plainVerdict_eq faultless 1 []
  have run := passage.plainRun_eq 1 []
  rw [List.append_nil] at verdict run
  refine ⟨?_, ?_⟩
  · rw [verdict, plainVerdict, ends]
    rfl
  · rw [run, ends, List.append_nil, passage.lastMachine_eq]

/-- Where a run is that has taken all the answers there are. -/
inductive Standing (language : Language Token State) (first : Machine Token State) :
    List Answer → List (PlainStep Token State) → Machine Token State → Verdict → Prop where
  | ready {answers : List Answer} {steps : List (PlainStep Token State)}
      {machine : Machine Token State} (passage : language.Passage first answers steps machine)
      (faultless : ∀ step ∈ steps, step.fault? = none) :
      Standing language first answers steps machine .unfinished
  | stopped {answers : List Answer} {steps more : List (PlainStep Token State)}
      {machine : Machine Token State} {ending : PlainEnd}
      (passage : language.Passage first answers steps machine)
      (faultless : ∀ step ∈ steps, step.fault? = none)
      (stops : language.Stops machine [] more ending) :
      Standing language first answers (steps ++ more) (PlainStep.lastMachine machine more)
        (PlainStep.verdict more ending)
  | refused {answers : List Answer} {answer : Answer} {steps : List (PlainStep Token State)}
      {step : PlainStep Token State} {machine : Machine Token State} {fault : Fault}
      (passage : language.Passage first answers steps machine)
      (faultless : ∀ step ∈ steps, step.fault? = none)
      (passes : language.Passes machine [answer] step) (refuses : step.fault? = some fault) :
      Standing language first (answers ++ [answer]) (steps ++ [step]) step.machine (.failed fault)

section Standing

variable {answers : List Answer} {steps : List (PlainStep Token State)} {verdict : Verdict}

theorem Stops.steps_eq {ending : PlainEnd} (stops : language.Stops machine answers steps ending) :
    (language.plainRun steps.length answers machine).1 = steps := by
  have stopped := congrArg Prod.fst (stops.plainRun_eq 0)
  cases stops with
  | finished atEnd => rfl
  | failed current performs | halted current performs | starved current performs => exact stopped

theorem Stops.verdict_ne_unfinished {ending : PlainEnd}
    (stops : language.Stops machine answers steps ending) :
    PlainStep.verdict steps ending ≠ .unfinished := by
  cases stops with
  | finished atEnd =>
      cases language.finish machine.state with
      | ok => simp [PlainStep.verdict, PlainEnd.verdict]
      | error fault => simp [PlainStep.verdict, PlainEnd.verdict]
  | failed current performs => simp [PlainStep.verdict, PlainStep.fault?]
  | halted current performs => simp [PlainStep.verdict, PlainStep.fault?, PlainEnd.verdict]
  | starved current performs => simp [PlainStep.verdict, PlainStep.fault?, PlainEnd.verdict]

/-- The plain run that executes as many tokens takes the same steps. -/
theorem Standing.steps_eq (standing : language.Standing first answers steps machine verdict) :
    (language.plainRun steps.length answers first).1 = steps := by
  cases standing with
  | ready passage faultless => simpa [plainRun] using congrArg Prod.fst (passage.plainRun_eq 0 [])
  | stopped passage faultless stops =>
      rename_i before more machine ending
      have begins := congrArg Prod.fst (passage.plainRun_eq more.length [])
      rw [List.append_nil, stops.steps_eq] at begins
      rw [List.length_append]
      exact begins
  | refused passage faultless passes refuses =>
      simpa [plainRun] using congrArg Prod.fst ((passage.snoc passes).plainRun_eq 0 [])

theorem Standing.lastMachine_eq (standing : language.Standing first answers steps machine verdict) :
    PlainStep.lastMachine first steps = machine := by
  cases standing with
  | ready passage faultless => exact passage.lastMachine_eq
  | stopped passage faultless stops =>
      rw [PlainStep.lastMachine_append, passage.lastMachine_eq]
  | refused passage faultless passes refuses => exact (passage.snoc passes).lastMachine_eq

/-- An unfinished run has passed its tokens without a fault. -/
theorem Standing.passage (standing : language.Standing first answers steps machine .unfinished) :
    language.Passage first answers steps machine ∧ ∀ step ∈ steps, step.fault? = none := by
  generalize isUnfinished : Verdict.unfinished = verdict at standing
  cases standing with
  | ready passage faultless => exact ⟨passage, faultless⟩
  | stopped passage faultless stops => exact absurd isUnfinished.symm stops.verdict_ne_unfinished
  | refused passage faultless passes refuses => cases isUnfinished

/-- As long as the run is unfinished, so is the plain run. -/
theorem Standing.plainVerdict_unfinished
    (standing : language.Standing first answers steps machine .unfinished) :
    language.plainVerdict steps.length answers first = .unfinished := by
  rcases standing.passage with ⟨passage, faultless⟩
  have behind := passage.plainVerdict_eq faultless 0 []
  rw [List.append_nil] at behind
  exact behind

/-- When the run has stopped, the plain run stops alike behind the same steps. -/
theorem Standing.plainVerdict_eq (standing : language.Standing first answers steps machine verdict)
    (stopped : verdict ≠ .unfinished) :
    language.plainVerdict (steps.length + 1) answers first = verdict := by
  cases standing with
  | ready passage faultless => exact absurd rfl stopped
  | stopped passage faultless stops =>
      rename_i before more machine ending
      have behind := passage.plainVerdict_eq faultless (more.length + 1) []
      rw [List.append_nil] at behind
      rw [List.length_append, Nat.add_assoc, behind, plainVerdict, stops.plainRun_eq]
  | refused passage faultless passes refuses =>
      rename_i answers answer before step machine fault
      have behind := passage.plainVerdict_eq faultless 2 [answer]
      rw [List.length_append, List.length_singleton, Nat.add_assoc, behind, plainVerdict]
      have passed := passes.plainRun_eq 1 []
      rw [List.append_nil] at passed
      simp only [passed, PlainStep.verdict, refuses]

theorem Standing.goesOn (standing : language.Standing first answers steps machine .unfinished)
    {step : PlainStep Token State} (passes : language.Passes machine [] step)
    (faultless : step.fault? = none) :
    language.Standing first answers (steps ++ [step]) step.machine .unfinished := by
  rcases standing.passage with ⟨passage, faultlessBefore⟩
  have passed := passage.snoc passes
  rw [List.append_nil] at passed
  exact .ready passed (List.forall_mem_append.mpr ⟨faultlessBefore, by simpa using faultless⟩)

/-- A waiting run stands behind a token that asked. -/
theorem Standing.asked (standing : language.Standing first answers steps machine .waiting) :
    ∃ passed before token request, language.Passage first answers passed before ∧
      (∀ step ∈ passed, step.fault? = none) ∧ steps.length = passed.length + 1 ∧
      before.program.current? = some token ∧
      language.perform token before.behind = (.ok (.ask request), machine) := by
  generalize isWaiting : Verdict.waiting = verdict at standing
  cases standing with
  | ready passage faultless => cases isWaiting
  | refused passage faultless passes refuses => cases isWaiting
  | stopped passage faultless stops =>
      rename_i passed more before ending
      cases stops with
      | finished atEnd =>
          cases finish : language.finish before.state with
          | ok => simp [finish, PlainStep.verdict, PlainEnd.verdict] at isWaiting
          | error fault => simp [finish, PlainStep.verdict, PlainEnd.verdict] at isWaiting
      | failed current performs => simp [PlainStep.verdict, PlainStep.fault?] at isWaiting
      | halted current performs =>
          simp [PlainStep.verdict, PlainStep.fault?, PlainEnd.verdict] at isWaiting
      | starved current performs =>
          exact ⟨passed, before, _, _, passage, faultless, by simp, current, performs⟩

/-- A waiting run goes on with the answer that it takes. -/
theorem Standing.accepted (standing : language.Standing first answers steps machine .waiting)
    {answer : Answer} {after : Machine Token State}
    (accepts : language.answer answer machine = (.ok (), after)) :
    ∃ passed, passed.length = steps.length ∧
      language.Standing first (answers ++ [answer]) passed after .unfinished := by
  rcases standing.asked with
    ⟨passed, before, token, request, passage, faultless, length, current, performs⟩
  have passes := Passes.answered current performs accepts
  refine ⟨_, ?_, .ready (passage.snoc passes) (List.forall_mem_append.mpr ⟨faultless, ?_⟩)⟩
  · simp [length]
  · simp [PlainStep.fault?]

/-- A waiting run stops at an answer that it refuses. -/
theorem Standing.rejected (standing : language.Standing first answers steps machine .waiting)
    {answer : Answer} {fault : Fault} {after : Machine Token State}
    (refuses : language.answer answer machine = (.error fault, after)) :
    ∃ passed, passed.length = steps.length ∧
      language.Standing first (answers ++ [answer]) passed after (.failed fault) := by
  rcases standing.asked with
    ⟨passed, before, token, request, passage, faultless, length, current, performs⟩
  refine ⟨_, ?_, .refused passage faultless (.answered current performs refuses) rfl⟩
  simp [length]

end Standing

end Language

/-! ### Tokens in a row -/

/-- These tokens come next. -/
def Program.Ahead {Token : Type} (program : Program Token) (tokens : List Token) : Prop :=
  tokens <+: program.tokens.toList.drop program.counter

theorem Program.ahead_cons_iff {Token : Type} {program : Program Token} {token : Token}
    {later : List Token} :
    program.Ahead (token :: later) ↔
      program.current? = some token ∧ program.step.Ahead later := by
  unfold Ahead current? step
  rcases Nat.lt_or_ge program.counter program.tokens.size with inside | outside
  · rw [List.drop_eq_getElem_cons (by simpa using inside), List.cons_prefix_cons,
      Array.getElem?_eq_getElem inside]
    simp [eq_comm]
  · rw [List.drop_of_length_le (by simpa using outside), Array.getElem?_eq_none outside]
    simp

namespace Language

variable {Token State : Type} {language : Language Token State}
  {first middle last : Machine Token State}

/-- The tokens that come next are executed in turn, and after each of them the run proceeds. -/
inductive Proceeds (language : Language Token State) :
    List Token → Machine Token State → Machine Token State → Prop where
  | nil {machine : Machine Token State} : Proceeds language [] machine machine
  | cons {token : Token} {later : List Token} {machine next last : Machine Token State}
      (current : machine.program.current? = some token)
      (performs : language.perform token machine.behind = (.ok .proceed, next))
      (proceeds : Proceeds language later next last) :
      Proceeds language (token :: later) machine last

theorem Proceeds.append {earlier later : List Token}
    (proceeds : language.Proceeds earlier first middle)
    (goesOn : language.Proceeds later middle last) :
    language.Proceeds (earlier ++ later) first last := by
  induction proceeds with
  | nil => exact goesOn
  | cons current performs _ ih => exact .cons current performs (ih goesOn)

/-- A plain run executes tokens in a row, whatever answers it has, and goes on behind them. -/
theorem Proceeds.plainRun_eq {tokens : List Token} (proceeds : language.Proceeds tokens first last)
    (limit : Nat) (answers : List Answer) :
    ∃ steps : List (PlainStep Token State),
      steps.map PlainStep.token = tokens ∧ (∀ step ∈ steps, step.flow = .ok .proceed) ∧
        PlainStep.lastMachine first steps = last ∧
        language.plainRun (tokens.length + limit) answers first =
          (steps ++ (language.plainRun limit answers last).1,
            (language.plainRun limit answers last).2) := by
  induction proceeds with
  | nil => exact ⟨[], rfl, by simp, rfl, by simp⟩
  | @cons token later machine next last current performs proceeds ih =>
      rcases ih with ⟨steps, tokens, flows, lastMachine, run⟩
      have passes : language.Passes machine [] { token, flow := .ok .proceed, machine := next } :=
        .goesOn current performs (.inl rfl)
      refine ⟨{ token, flow := .ok .proceed, machine := next } :: steps, ?_, ?_, ?_, ?_⟩
      · rw [List.map_cons, tokens]
      · exact List.forall_mem_cons.mpr ⟨rfl, flows⟩
      · exact (PlainStep.lastMachine_append machine [_] steps).trans lastMachine
      · have passed := passes.plainRun_eq (later.length + limit) answers
        rw [List.nil_append, run] at passed
        rw [List.length_cons, Nat.add_right_comm, passed, List.cons_append]

end Language

end Esoterica
