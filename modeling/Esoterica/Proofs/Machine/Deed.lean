import Esoterica.Machine.PlainRun
import Esoterica.Machine.TapeState

/-!
# What an instruction can do to a console

An instruction can do anything to the run it belongs to, but little to the console: it adds to the
output, keeps its first characters or clears it, at most once, and then simply goes on. Of the
console it can see the output only, never the echo of a line or the changes not yet reported.

`Deed` is what an instruction did, apart from the console it was done on. The lemmas of this file
follow the ways in which instructions are put together; languages are covered by applying them.
-/

namespace Esoterica

/-- A change that a program can make to its console. -/
inductive Edit where
  | write (text : String)
  | keepFirst (length : Nat)
  | clear

namespace Edit

def apply : Edit → Console → Console
  | write text, console => console.write text
  | keepFirst length, console => console.keepFirst length
  | clear, console => console.clear

/-- What an edit leaves of the output depends on the output alone. -/
theorem apply_output (edit : Edit) {left right : Console} (same : left.output = right.output) :
    (edit.apply left).output = (edit.apply right).output := by
  cases edit with
  | write text => simp only [apply, Console.write, apply_ite Console.output, same]
  | keepFirst length =>
      have sameLength : left.length = right.length := congrArg String.length same
      simp only [apply, Console.keepFirst, apply_ite Console.output, sameLength, same]
  | clear => simp only [apply, Console.clear, apply_ite Console.output, same]

end Edit

/-- The result of an instruction, the run it leaves and its edit of the console, if any. -/
structure Deed (Token State α : Type) where
  result : Except Fault α
  program : Program Token
  state : State
  random : RandomStream
  edit? : Option Edit := none

namespace Deed

variable {Token State α : Type}

/-- The console after a deed. -/
def consoleAfter (deed : Deed Token State α) (console : Console) : Console :=
  match deed.edit? with
  | some edit => edit.apply console
  | none => console

/-- The machine after a deed. -/
def machineAfter (deed : Deed Token State α) (console : Console) : Machine Token State where
  program := deed.program
  state := deed.state
  console := deed.consoleAfter console
  random := deed.random

theorem consoleAfter_output (deed : Deed Token State α) {left right : Console}
    (same : left.output = right.output) :
    (deed.consoleAfter left).output = (deed.consoleAfter right).output := by
  unfold consoleAfter
  split
  · exact Edit.apply_output _ same
  · exact same

/-- A deed as an instruction reports it. -/
def on (deed : Deed Token State α) (console : Console) :
    EStateM.Result Fault (Machine Token State) α :=
  match deed.result with
  | .ok value => .ok value (deed.machineAfter console)
  | .error fault => .error fault (deed.machineAfter console)

end Deed

namespace Instruction

variable {Token State α β : Type}

/--
Whatever the instruction is executed on, it does a deed whose result and edit are allowed, and the
same one on every console with the same output.
-/
def Performs (action : Instruction Token State α) (allowed : Except Fault α → Option Edit → Prop) :
    Prop :=
  ∀ machine : Machine Token State, ∃ deed : Deed Token State α,
    allowed deed.result deed.edit? ∧
      ∀ console, console.output = machine.console.output →
        action { machine with console } = deed.on console

/-- The instruction leaves the console alone. -/
def Silent (action : Instruction Token State α) : Prop :=
  action.Performs fun _ edit? => edit? = none

/-- The instruction leaves the console alone if it fails. -/
def Orderly (action : Instruction Token State α) : Prop :=
  action.Performs fun result edit? => (∃ fault, result = .error fault) → edit? = none

/-- The instruction leaves the console alone unless the run simply goes on after it. -/
def Tame (action : Instruction Token State Flow) : Prop :=
  action.Performs fun result edit? => result ≠ .ok .proceed → edit? = none

theorem Performs.mono {action : Instruction Token State α}
    {allowed wider : Except Fault α → Option Edit → Prop} (performs : action.Performs allowed)
    (widens : ∀ result edit?, allowed result edit? → wider result edit?) :
    action.Performs wider := by
  intro machine
  rcases performs machine with ⟨deed, isAllowed, agrees⟩
  exact ⟨deed, widens _ _ isAllowed, agrees⟩

theorem Silent.orderly {action : Instruction Token State α} (silent : action.Silent) :
    action.Orderly :=
  silent.mono fun _ _ unedited _ => unedited

theorem Silent.tame {action : Instruction Token State Flow} (silent : action.Silent) :
    action.Tame :=
  silent.mono fun _ _ unedited _ => unedited

theorem Silent.pure (value : α) : (pure value : Instruction Token State α).Silent := by
  intro machine
  refine ⟨⟨.ok value, machine.program, machine.state, machine.random, none⟩, rfl, ?_⟩
  intro console _
  rfl

theorem Silent.throw (fault : Fault) : (throw fault : Instruction Token State α).Silent := by
  intro machine
  refine ⟨⟨.error fault, machine.program, machine.state, machine.random, none⟩, rfl, ?_⟩
  intro console _
  rfl

/-- After a silent instruction, what comes next decides. -/
theorem Silent.bind_performs {first : Instruction Token State α}
    {rest : α → Instruction Token State β} {allowed : Except Fault β → Option Edit → Prop}
    (silent : first.Silent) (failing : ∀ fault, allowed (.error fault) none)
    (performs : ∀ value, (rest value).Performs allowed) : (first >>= rest).Performs allowed := by
  intro machine
  rcases silent machine with ⟨⟨result, program, state, random, edit?⟩, unedited, agrees⟩
  subst unedited
  cases result with
  | error fault =>
      refine ⟨⟨.error fault, program, state, random, none⟩, failing fault, ?_⟩
      intro console sameOutput
      change EStateM.bind first rest { machine with console } = _
      rw [EStateM.bind, agrees console sameOutput]
      rfl
  | ok value =>
      rcases performs value { machine with program, state, random } with
        ⟨deed, isAllowed, restAgrees⟩
      refine ⟨deed, isAllowed, ?_⟩
      intro console sameOutput
      change EStateM.bind first rest { machine with console } = _
      rw [EStateM.bind, agrees console sameOutput]
      exact restAgrees console sameOutput

theorem Silent.bind {first : Instruction Token State α} {rest : α → Instruction Token State β}
    (silent : first.Silent) (restSilent : ∀ value, (rest value).Silent) :
    (first >>= rest).Silent :=
  silent.bind_performs (fun _ => rfl) restSilent

theorem Silent.bind_orderly {first : Instruction Token State α}
    {rest : α → Instruction Token State β} (silent : first.Silent)
    (orderly : ∀ value, (rest value).Orderly) : (first >>= rest).Orderly :=
  silent.bind_performs (fun _ _ => rfl) orderly

theorem Silent.bind_tame {first : Instruction Token State α}
    {rest : α → Instruction Token State Flow} (silent : first.Silent)
    (tame : ∀ value, (rest value).Tame) : (first >>= rest).Tame :=
  silent.bind_performs (fun _ _ => rfl) tame

/-- An orderly instruction may be followed by going on. -/
theorem Orderly.proceed {first : Instruction Token State α} (orderly : first.Orderly) :
    (first >>= fun _ => Pure.pure Flow.proceed).Tame := by
  intro machine
  rcases orderly machine with ⟨⟨result, program, state, random, edit?⟩, unedited, agrees⟩
  cases result with
  | error fault =>
      refine ⟨⟨.error fault, program, state, random, edit?⟩, fun _ => unedited ⟨fault, rfl⟩, ?_⟩
      intro console sameOutput
      change EStateM.bind first _ { machine with console } = _
      rw [EStateM.bind, agrees console sameOutput]
      rfl
  | ok value =>
      refine ⟨⟨.ok .proceed, program, state, random, edit?⟩, fun stops => absurd rfl stops, ?_⟩
      intro console sameOutput
      change EStateM.bind first _ { machine with console } = _
      rw [EStateM.bind, agrees console sameOutput]
      rfl

/-- An instruction may look at the machine, if it does not look at the console's echo or changes. -/
theorem Performs.get_bind {rest : Machine Token State → Instruction Token State α}
    {allowed : Except Fault α → Option Edit → Prop}
    (seesOutput : ∀ machine : Machine Token State,
      rest machine = rest { machine with console := { output := machine.console.output } })
    (performs : ∀ machine, (rest machine).Performs allowed) : (get >>= rest).Performs allowed := by
  intro machine
  rcases performs machine machine with ⟨deed, isAllowed, agrees⟩
  refine ⟨deed, isAllowed, ?_⟩
  intro console sameOutput
  change rest { machine with console } { machine with console } = _
  rw [seesOutput { machine with console }, ← agrees console sameOutput, seesOutput machine]
  simp only [sameOutput]

/-- A change of the machine that leaves the console out is silent. -/
theorem Silent.modify {change : Machine Token State → Machine Token State}
    (leavesOut : ∀ machine console,
      change { machine with console } = { change machine with console }) :
    (modify change : Instruction Token State Unit).Silent := by
  intro machine
  let changed := change machine
  refine ⟨⟨.ok (), changed.program, changed.state, changed.random, none⟩, rfl, ?_⟩
  intro console _
  change EStateM.Result.ok () (change { machine with console }) = _
  rw [leavesOut]
  rfl

theorem silent_getState : (getState : Instruction Token State State).Silent :=
  Performs.get_bind (fun _ => rfl) fun _ => Silent.pure _

theorem silent_modifyState (change : State → State) :
    (modifyState change : Instruction Token State Unit).Silent :=
  Silent.modify fun _ _ => rfl

theorem silent_tryProgram (change : Program Token → Except Fault (Program Token)) :
    (tryProgram change : Instruction Token State Unit).Silent := by
  apply Performs.get_bind
  · intro machine
    rfl
  · intro machine
    cases change machine.program with
    | ok program => exact Silent.modify fun _ _ => rfl
    | error fault => exact Silent.throw fault

theorem silent_draw (drawn : RandomStream → α × RandomStream) :
    (draw drawn : Instruction Token State α).Silent := by
  apply Performs.get_bind
  · intro machine
    rfl
  · intro machine
    apply Silent.bind
    · exact Silent.modify fun _ _ => rfl
    · intro _
      exact Silent.pure _

/-- An edit of the console that is chosen by looking at the output is orderly. -/
theorem orderly_modifyConsole {change : Console → Console} (choice : String → Edit)
    (chooses : ∀ console, change console = (choice console.output).apply console) :
    (modifyConsole change : Instruction Token State Unit).Orderly := by
  intro machine
  refine ⟨⟨.ok (), machine.program, machine.state, machine.random,
    some (choice machine.console.output)⟩, ?_, ?_⟩
  · rintro ⟨fault, isError⟩
    cases isError
  · intro console sameOutput
    change EStateM.Result.ok () { machine with console := change console } = _
    rw [chooses, sameOutput]
    rfl

theorem orderly_write (text : String) :
    (modifyConsole (·.write text) : Instruction Token State Unit).Orderly :=
  orderly_modifyConsole (fun _ => .write text) fun _ => rfl

end Instruction

/-- Two machines differ at most in the echo and in the changes that were not reported. -/
structure Machine.Alike {Token State : Type} (left right : Machine Token State) : Prop where
  program : left.program = right.program
  state : left.state = right.state
  random : left.random = right.random
  output : left.console.output = right.console.output

namespace Language

variable {Token State : Type}

/-- A tame token does one deed on all consoles that show the same output. -/
theorem perform_of_tame {language : Language Token State} {token : Token}
    (tame : (language.execute token).Tame) (machine : Machine Token State) :
    ∃ deed : Deed Token State Flow,
      (deed.result ≠ .ok .proceed → deed.edit? = none) ∧
        ∀ console, console.output = machine.console.output →
          language.perform token { machine with console } =
            (deed.result, deed.machineAfter console) := by
  rcases tame machine with ⟨deed, quiet, agrees⟩
  refine ⟨deed, quiet, ?_⟩
  intro console sameOutput
  unfold perform
  rw [agrees console sameOutput]
  unfold Deed.on
  cases deed.result with
  | ok flow => rfl
  | error fault => rfl

/-- A tame token has the same result on machines that are alike, and leaves them alike. -/
theorem perform_alike {language : Language Token State} {token : Token}
    (tame : (language.execute token).Tame) {left right : Machine Token State}
    (alike : left.Alike right) :
    (language.perform token left).1 = (language.perform token right).1 ∧
      (language.perform token left).2.Alike (language.perform token right).2 := by
  rcases perform_of_tame tame right with ⟨deed, _, agrees⟩
  have onRight : language.perform token right = (deed.result, deed.machineAfter right.console) :=
    agrees right.console rfl
  have onLeft : language.perform token left = (deed.result, deed.machineAfter left.console) := by
    rw [← agrees left.console alike.output, ← alike.program, ← alike.state, ← alike.random]
  rw [onLeft, onRight]
  exact ⟨rfl, rfl, rfl, rfl, deed.consoleAfter_output alike.output⟩

/-- A tame token leaves the console alone or makes one edit of it. -/
theorem perform_console {language : Language Token State} {token : Token}
    (tame : (language.execute token).Tame) (machine : Machine Token State) :
    (language.perform token machine).2.console = machine.console ∨
      ∃ edit : Edit, (language.perform token machine).2.console = edit.apply machine.console := by
  rcases perform_of_tame tame machine with ⟨deed, _, agrees⟩
  rw [show language.perform token machine = _ from agrees machine.console rfl]
  simp only [Deed.machineAfter, Deed.consoleAfter]
  split
  · exact Or.inr ⟨_, rfl⟩
  · exact Or.inl rfl

/-- A tame token after which the run does not simply go on has left the console alone. -/
theorem perform_console_of_stop {language : Language Token State} {token : Token}
    (tame : (language.execute token).Tame) {machine after : Machine Token State}
    {result : Except Fault Flow} (performs : language.perform token machine = (result, after))
    (stops : result ≠ .ok .proceed) : after.console = machine.console := by
  rcases perform_of_tame tame machine with ⟨deed, quiet, agrees⟩
  have same := (agrees machine.console rfl).symm.trans performs
  simp only [Prod.mk.injEq] at same
  rcases same with ⟨rfl, rfl⟩
  simp only [Deed.machineAfter, Deed.consoleAfter, quiet stops]

end Language

namespace TapeState

variable {Token : Type}

theorem silent_getCell : (getCell : Instruction Token TapeState UInt8).Silent :=
  Instruction.silent_getState.bind fun _ => .pure _

theorem silent_modifyTape (change : Tape → Tape) :
    (modifyTape change : Instruction Token TapeState Unit).Silent :=
  Instruction.silent_modifyState _

theorem silent_pushLoop (start : Nat) :
    (pushLoop start : Instruction Token TapeState Unit).Silent :=
  Instruction.silent_modifyState _

theorem silent_popLoop : (popLoop? : Instruction Token TapeState (Option Nat)).Silent := by
  apply Instruction.silent_getState.bind
  intro state
  apply (Instruction.silent_modifyState _).bind
  intro _
  exact .pure _

theorem orderly_writeCell : (writeCell : Instruction Token TapeState Unit).Orderly := by
  apply silent_getCell.bind_orderly
  intro cell
  exact Instruction.orderly_write _

end TapeState

end Esoterica
