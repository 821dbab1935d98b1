import Esoterica.Engine.Event

/-!
# Engines

An engine runs one program at a time in slices. A slice ends at a jump back, at a request for input,
when its budget or its time is used up, when a cancellation is asked for, and with the program. The
host calls for slices and presses keys; everything that happens is also recorded as events.

The run itself is part of the engine's phase, so that there is a run exactly while the status is
running or suspended, and a failure exactly while it is failed.
-/

namespace Esoterica

structure Statistics where
  instructions : Nat := 0
  slices : Nat := 0
deriving DecidableEq

/-- A program under way. -/
structure Run (Token State : Type) where
  program : Program Token
  state : State

inductive Phase (Token State : Type) where
  | idle
  | running (run : Run Token State)
  | suspended (run : Run Token State) (prompt : Prompt)
  | completed
  | failed (failure : Failure)
  | cancelled

namespace Phase

variable {Token State : Type}

def status : Phase Token State → Status
  | idle => .idle
  | running _ => .running
  | suspended _ prompt => .suspended prompt.request
  | completed => .completed
  | failed _ => .failed
  | cancelled => .cancelled

def run? : Phase Token State → Option (Run Token State)
  | running run | suspended run _ => some run
  | idle | completed | failed _ | cancelled => none

def prompt? : Phase Token State → Option Prompt
  | suspended _ prompt => some prompt
  | idle | running _ | completed | failed _ | cancelled => none

def failure? : Phase Token State → Option Failure
  | failed failure => some failure
  | idle | running _ | suspended _ _ | completed | cancelled => none

end Phase

structure Engine (Token State : Type) where
  language : Language Token State
  options : Options
  observer : Observer
  clock : Clock
  console : Console := {}
  random : RandomStream
  phase : Phase Token State := .idle
  /-- Whether a cancellation was asked for and not yet carried out. -/
  cancelRequested : Bool := false
  statistics : Statistics := {}
  /-- The events that the host has not yet looked at, oldest first. -/
  events : Array Event := #[]
  /-- What the observer remembers of the events it was told. -/
  memory : List Event := []

namespace Engine

variable {Token State : Type}

def status (engine : Engine Token State) : Status :=
  engine.phase.status

def output (engine : Engine Token State) : String :=
  engine.console.output

/-- The message of the failure that ended the run. -/
def error? (engine : Engine Token State) : Option String :=
  engine.phase.failure?.map Failure.message

/-- An engine without a run. A seed in the options replaces the random stream. -/
def create (language : Language Token State) (options : Options) (random : RandomStream)
    (observer : Observer) (clock : Clock) : Engine Token State where
  language := language
  options := options
  observer := observer
  clock := clock
  random := options.randomStream random

/-- Records an event and tells the observer. -/
def report (engine : Engine Token State) (event : Event) : Engine Token State :=
  { engine with
    events := engine.events.push event
    memory := engine.observer.remembers engine.memory event
    cancelRequested := engine.cancelRequested || engine.observer.cancelsAt engine.memory event }

/-- Drops the events, after the host has looked at them. -/
def forgetEvents (engine : Engine Token State) : Engine Token State :=
  { engine with events := #[] }

/-- Reports the changes of the console. -/
def publish (engine : Engine Token State) : Engine Token State :=
  let changes := engine.console.changes
  let engine := { engine with console := { engine.console with changes := #[] } }
  changes.foldl (fun engine change => engine.report (.console change)) engine

/-- Changes the console and reports that. -/
def updateConsole (engine : Engine Token State) (f : Console → Console) : Engine Token State :=
  publish { engine with console := f engine.console }

/-- Goes over to another phase, and reports the status if it is another one. -/
def enter (engine : Engine Token State) (phase : Phase Token State) : Engine Token State :=
  let before := engine.status
  let engine := { engine with phase }
  if before = phase.status then engine else engine.report (.status phase.status)

/-- Ends the run with a failure. -/
def fail (engine : Engine Token State) (failure : Failure) : Engine Token State :=
  ((engine.updateConsole Console.dropEcho).report (.failed failure.message)).enter
    (.failed failure)

/-- Ends the run, if there is one, and removes what was typed and not committed. -/
def cancel (engine : Engine Token State) : Engine Token State :=
  let engine := { engine with cancelRequested := false }
  if engine.status.isActive then
    (engine.updateConsole Console.dropEcho).enter .cancelled
  else
    engine

/-- Asks for a cancellation, to be carried out at the next opportunity. -/
def requestCancel (engine : Engine Token State) : Engine Token State :=
  { engine with cancelRequested := true }

/-- Removes the output. -/
def clearOutput (engine : Engine Token State) : Engine Token State :=
  engine.updateConsole Console.clear

/-- The engine together with what its status asks for. -/
def withNext (engine : Engine Token State) : Engine Token State × Next :=
  (engine, engine.status.next)

/-- Starts a program from its source, in place of the run there was. -/
def start (engine : Engine Token State) (source : String) : Engine Token State × Next :=
  let engine : Engine Token State :=
    { engine with
      cancelRequested := false
      statistics := {}
      random := engine.options.randomStream engine.random }
  let engine := engine.updateConsole Console.wipe
  match engine.language.read source with
  | .ok program =>
    let run := { program := program.rewind, state := engine.language.initial engine.options }
    (engine.enter (.running run), .slice)
  | .error error => (engine.fail (.source error), .done .failed)

/-- Ends a run that has no token left. -/
def conclude (engine : Engine Token State) (run : Run Token State) : Engine Token State :=
  match engine.language.finish run.state with
  | .ok () => engine.enter .completed
  | .error fault =>
    let last := (run.program.tokens.back?.map engine.language.describe).getD ""
    engine.fail (.instruction last (max 1 run.program.counter) fault)

/-- Puts a machine back into the engine whose run it carried on. -/
def absorb (engine : Engine Token State) (machine : Machine Token State) : Engine Token State :=
  { engine with
    console := machine.console
    random := machine.random
    phase := .running { program := machine.program, state := machine.state } }

/-- Executes a token on a machine, which alone holds the run and the console meanwhile. -/
def perform (engine : Engine Token State) (token : Token) (program : Program Token)
    (state : State) : Except Fault Flow × Engine Token State :=
  let { language, console, random, statistics, .. } := engine
  let engine :=
    { engine with
      console := {}
      phase := .idle
      statistics := { statistics with instructions := statistics.instructions + 1 } }
  match language.execute token { program, state, console, random } with
  | .ok flow machine => (.ok flow, (engine.absorb machine).publish)
  | .error fault machine => (.error fault, (engine.absorb machine).publish)

/-- Suspends the run at a request. -/
def suspend (engine : Engine Token State) (request : Request) : Engine Token State :=
  match engine.phase with
  | .running run => engine.enter (.suspended run { request })
  | _ => engine

/-- Executes the next token of the run. Says what comes next if the slice ends with it. -/
def tick (engine : Engine Token State) : Engine Token State × Option Next :=
  match engine.phase with
  | .running run =>
    let position := run.program.counter + 1
    match run.program.next with
    | (none, _) =>
      let engine := engine.conclude run
      (engine, some engine.status.next)
    | (some token, program) =>
      match engine.perform token program run.state with
      | (.ok .proceed, engine) => (engine, none)
      | (.ok .yield, engine) => (engine, some .slice)
      | (.ok (.ask request), engine) =>
        let engine := engine.suspend request
        (engine, some engine.status.next)
      | (.ok .halt, engine) =>
        let engine := engine.enter .completed
        (engine, some engine.status.next)
      | (.error fault, engine) =>
        let engine := engine.fail (.instruction (engine.language.describe token) position fault)
        (engine, some engine.status.next)
  | _ => (engine, some engine.status.next)

/-- Executes tokens until the slice ends, at the latest when `remaining` follow the first one. -/
def ticks (engine : Engine Token State) (remaining : Nat) : Engine Token State × Next :=
  if engine.cancelRequested then
    engine.cancel.withNext
  else
    match engine.tick with
    | (engine, some next) => (engine, next)
    | (engine, none) =>
      match remaining with
      | 0 => (engine, .slice)
      | remaining + 1 =>
        if engine.options.timeSlice ≤ engine.clock engine.statistics.instructions then
          (engine, .slice)
        else
          engine.ticks remaining

/-- Runs one slice. -/
def slice (engine : Engine Token State) : Engine Token State × Next :=
  if engine.cancelRequested then
    engine.cancel.withNext
  else if engine.status = .running then
    let { statistics, options, .. } := engine
    ticks
      { engine with statistics := { statistics with slices := statistics.slices + 1 } }
      (options.stepBudget - 1)
  else
    engine.withNext

/-- Runs at most `fuel` slices, until none is called for any more; nothing if that was too few. -/
def slices : (fuel : Nat) → Engine Token State → Option (Engine Token State × Next)
  | 0, _ => none
  | fuel + 1, engine =>
    match engine.slice with
    | (engine, .slice) => slices fuel engine
    | (engine, next) => some (engine, next)

/-- Hands an entry to a run that was suspended and goes on with it. -/
def resume (engine : Engine Token State) (run : Run Token State) (entry : Entry) :
    Engine Token State × Next :=
  let { program, state } := run
  match engine.language.receive entry state with
  | .ok state => (engine.publish.enter (.running { program, state })).slice
  | .error fault =>
    let text := (program.previous?.map engine.language.describe).getD ""
    (engine.publish.fail (.instruction text program.counter fault)).withNext

/-- Whether a key can mean anything to a request. -/
def understands (engine : Engine Token State) (request : Request) (key : Key) : Bool :=
  request != .char || (engine.language.keyChar? key).isSome

/-- Presses a key at the prompt of a run, which the engine gives up meanwhile with its console. -/
def answer (engine : Engine Token State) (run : Run Token State) (prompt : Prompt) (key : Key) :
    Engine Token State × Next :=
  let { console, language, .. } := engine
  let engine := { engine with console := {}, phase := .idle }
  match prompt.press key console with
  | (.committed entry, _, console) =>
    let console :=
      match prompt.request with
      | .line _ => console.commit language.keepsLines
      | .char => console
    { engine with console }.resume run entry
  | (_, prompt, console) =>
    (publish { engine with console, phase := .suspended run prompt }).withNext

/-- Presses a key. The escape key cancels; other keys matter only to a suspended run. -/
def press (engine : Engine Token State) (key : Key) : Engine Token State × Next :=
  if engine.cancelRequested || (key == .escape && engine.status.isActive) then
    engine.cancel.withNext
  else
    match engine.phase with
    | .suspended run prompt =>
      if engine.understands prompt.request key then engine.answer run prompt key
      else engine.withNext
    | _ => engine.withNext

end Engine

end Esoterica
