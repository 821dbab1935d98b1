import Esoterica.Machine.Program
import Esoterica.Dialogue.Prompt
import Esoterica.Machine.RandomStream
import Esoterica.Text.SyntaxError

/-!
# Machines and languages

A machine is all that an instruction can change: the program's counter, the state of the language,
the console and the random stream. A language says how to read a source text as tokens and what each
token does to a machine. What an instruction did before it failed stays done.
-/

namespace Esoterica

/-- How programs are run. -/
structure Options where
  /-- The time after which a slice of a run ends, in milliseconds. -/
  timeSlice : Nat := 15
  /-- The number of instructions after which a slice of a run ends. -/
  stepBudget : Nat := 100000
  /-- The number of values that the stack of the stack language can hold. -/
  maxStackSize : Nat := 2097152
  /-- Where the random numbers of each run start. -/
  seed : Option Nat := none
  /-- The random stream of a seed. -/
  generator : Nat → RandomStream := fun _ => .zeros

namespace Options

/-- The random stream of a run: that of the seed, if there is one, otherwise the given one. -/
def randomStream (options : Options) (random : RandomStream) : RandomStream :=
  match options.seed with
  | some seed => options.generator seed
  | none => random

/-- Sets the step budget; a slice has at least one instruction. -/
def withStepBudget (options : Options) (budget : Nat) : Options :=
  { options with stepBudget := max 1 budget }

end Options

structure Machine (Token State : Type) where
  program : Program Token
  state : State
  console : Console := {}
  random : RandomStream

/-- How a run goes on after an instruction. -/
inductive Flow where
  | proceed
  /-- Ends the slice, so that loops give way to the host. -/
  | yield
  | ask (request : Request)
  | halt
deriving DecidableEq

/-- A change of a machine that can fail. -/
abbrev Instruction (Token State : Type) : Type → Type :=
  EStateM Fault (Machine Token State)

structure Language (Token State : Type) where
  /-- Reads a source. -/
  read : String → Except SyntaxError (Program Token)
  /-- The text of a token in reports. -/
  describe : Token → String
  /-- The state at the start of a run. -/
  initial : Options → State
  /-- Executes a token; the counter already stands behind it. -/
  execute : Token → Instruction Token State Flow
  /-- Takes the answer to a request. -/
  receive : Entry → State → Except Fault State
  /-- Whether a program may end behind its last token. -/
  finish : State → Except Fault Unit := fun _ => .ok ()
  /-- The character of a key when a single one is asked for; other keys are ignored. -/
  keyChar? : Key → Option Char := Key.toChar?
  /-- Whether committed lines become part of the output. -/
  keepsLines : Bool := true

namespace Instruction

variable {Token State : Type}

def getState : Instruction Token State State := do
  return (← get).state

def modifyState (f : State → State) : Instruction Token State Unit :=
  modify fun machine => { machine with state := f machine.state }

def modifyConsole (f : Console → Console) : Instruction Token State Unit :=
  modify fun machine => { machine with console := f machine.console }

/-- Changes the program, or fails and leaves it. -/
def tryProgram (f : Program Token → Except Fault (Program Token)) :
    Instruction Token State Unit := do
  match f (← get).program with
  | .ok program => modify fun machine => { machine with program }
  | .error fault => throw fault

/-- Draws from the random stream. -/
def draw {α : Type} (f : RandomStream → α × RandomStream) : Instruction Token State α := do
  let (value, random) := f (← get).random
  modify fun machine => { machine with random }
  return value

end Instruction

end Esoterica
