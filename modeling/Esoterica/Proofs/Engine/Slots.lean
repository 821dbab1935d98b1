import Esoterica.Proofs.Engine.History

/-!
# Engines with separate slots

The phase of an engine says in one word whether there is a run, what it waits for and how it failed.
An engine can also store these apart: the status, the run and in it the prompt at which it is
suspended, and the message of an error, each in a slot of its own that is assigned on its own, in
calls that return early in many places. Nothing in `Slots` says that its slots agree, and in the
middle of a call they do not.

At the end of every call they do. Whatever calls are made, the slots are those of an engine with
phases of which the same calls were made, and the calls return the same.
-/

namespace Esoterica

/-- A run with a slot for the prompt at which it is suspended. -/
structure ActiveRun (Token State : Type) where
  program : Program Token
  state : State
  suspension : Option Prompt := none

/-- An engine that stores its status, its run and the message of an error apart. -/
structure Slots (Token State : Type) where
  language : Language Token State
  options : Options
  observer : Observer
  clock : Clock
  console : Console := {}
  error : Option String := none
  active : Option (ActiveRun Token State) := none
  status : Status := .idle
  random : RandomStream
  cancelRequested : Bool := false
  statistics : Statistics := {}
  events : Array Event := #[]
  memory : List Event := []

namespace Slots

variable {Token State : Type}

def create (language : Language Token State) (options : Options) (random : RandomStream)
    (observer : Observer) (clock : Clock) : Slots Token State where
  language := language
  options := options
  observer := observer
  clock := clock
  random := options.randomStream random

def report (slots : Slots Token State) (event : Event) : Slots Token State :=
  { slots with
    events := slots.events.push event
    memory := slots.observer.remembers slots.memory event
    cancelRequested := slots.cancelRequested || slots.observer.cancelsAt slots.memory event }

/-- Reports the changes of the console. -/
def flush (slots : Slots Token State) : Slots Token State :=
  let changes := slots.console.changes
  let slots := { slots with console := { slots.console with changes := #[] } }
  changes.foldl (fun slots change => slots.report (.console change)) slots

/-- Assigns the status, and reports it if it is another one. -/
def setStatus (slots : Slots Token State) (status : Status) : Slots Token State :=
  if slots.status = status then slots else { slots with status }.report (.status status)

/-- Returns what the status asks for. -/
def withNext (slots : Slots Token State) : Slots Token State × Next :=
  (slots, slots.status.next)

def complete (slots : Slots Token State) : Slots Token State :=
  { slots with active := none }.setStatus .completed

def fail (slots : Slots Token State) (failure : Failure) : Slots Token State :=
  let message := failure.message
  let slots := { slots with active := none }
  let slots := { slots with console := slots.console.dropEcho }
  let slots := { slots with error := some message }
  let slots := slots.flush
  let slots := slots.report (.failed message)
  slots.setStatus .failed

def cancel (slots : Slots Token State) : Slots Token State :=
  let slots := { slots with cancelRequested := false }
  match slots.active with
  | none => slots
  | some _ =>
    let slots := { slots with active := none }
    let slots := { slots with console := slots.console.dropEcho }
    let slots := slots.flush
    slots.setStatus .cancelled

def requestCancel (slots : Slots Token State) : Slots Token State :=
  { slots with cancelRequested := true }

def clearOutput (slots : Slots Token State) : Slots Token State :=
  { slots with console := slots.console.clear }.flush

/-- Removes what is left of the last run. -/
def wipe (slots : Slots Token State) : Slots Token State :=
  let slots := { slots with active := none }
  let slots := { slots with cancelRequested := false }
  let slots := { slots with statistics := {} }
  let slots := { slots with random := slots.options.randomStream slots.random }
  let slots := { slots with console := slots.console.wipe, error := none }
  slots.flush

def start (slots : Slots Token State) (source : String) : Slots Token State × Next :=
  let slots := slots.wipe
  match slots.language.read source with
  | .ok program =>
    let state := slots.language.initial slots.options
    let slots := { slots with active := some { program := program.rewind, state } }
    (slots.setStatus .running, .slice)
  | .error error => (slots.fail (.source error), .done .failed)

/-- What is left to do at the end of the program. -/
def conclude (slots : Slots Token State) (run : ActiveRun Token State) : Slots Token State :=
  match slots.language.finish run.state with
  | .ok () => slots.complete
  | .error fault =>
    let last := (run.program.tokens.back?.map slots.language.describe).getD ""
    slots.fail (.instruction last (max 1 run.program.counter) fault)

/-- Executes a token on the program, the state, the console and the random stream. -/
def execute (slots : Slots Token State) (run : ActiveRun Token State) (token : Token)
    (program : Program Token) : Except Fault Flow × Slots Token State :=
  let { console, random, statistics, .. } := slots
  let (result, machine) :=
    slots.language.perform token { program, state := run.state, console, random }
  let run := { run with program := machine.program, state := machine.state }
  let slots :=
    { slots with active := some run, console := machine.console, random := machine.random }
  let slots :=
    { slots with
      statistics := { statistics with instructions := statistics.instructions + 1 } }
  (result, slots.flush)

/-- Executes the next token, if the slot of the run is not empty. -/
def tick (slots : Slots Token State) : Slots Token State × Option Next :=
  match slots.active with
  | none => (slots, some slots.status.next)
  | some run =>
    let position := run.program.counter + 1
    match run.program.next with
    | (none, _) =>
      let slots := slots.conclude run
      (slots, some slots.status.next)
    | (some token, program) =>
      match slots.execute run token program with
      | (.error fault, slots) =>
        let slots := slots.fail (.instruction (slots.language.describe token) position fault)
        (slots, some slots.status.next)
      | (.ok .proceed, slots) => (slots, none)
      | (.ok .yield, slots) => (slots, some .slice)
      | (.ok (.ask request), slots) =>
        let active := slots.active.map fun run => { run with suspension := some { request } }
        let slots := { slots with active }
        let slots := slots.setStatus (.suspended request)
        (slots, some slots.status.next)
      | (.ok .halt, slots) =>
        let slots := slots.complete
        (slots, some slots.status.next)

/-- Executes tokens until the budget or the time of the slice is used up, or the slice ends. -/
def loop (budget : Nat) (slots : Slots Token State) (executed : Nat) : Slots Token State × Next :=
  if slots.cancelRequested then
    slots.cancel.withNext
  else
    match slots.tick with
    | (slots, some next) => (slots, next)
    | (slots, none) =>
      let executed := executed + 1
      if budget ≤ executed ∨
          slots.options.timeSlice ≤ slots.clock slots.statistics.instructions then
        (slots, .slice)
      else
        slots.loop budget executed
termination_by budget - executed

def slice (slots : Slots Token State) : Slots Token State × Next :=
  if slots.cancelRequested then
    slots.cancel.withNext
  else if slots.status ≠ .running then
    slots.withNext
  else
    let { statistics, options, .. } := slots
    let slots := { slots with statistics := { statistics with slices := statistics.slices + 1 } }
    slots.loop options.stepBudget 0

def slices : (fuel : Nat) → Slots Token State → Option (Slots Token State × Next)
  | 0, _ => none
  | fuel + 1, slots =>
    match slots.slice with
    | (slots, .slice) => slices fuel slots
    | (slots, next) => some (slots, next)

/-- Commits what was typed if a line was asked for. -/
def commitEcho (slots : Slots Token State) : Request → Slots Token State
  | .line _ => { slots with console := slots.console.commit slots.language.keepsLines }
  | .char => slots

/-- Gives the committed entry to the run, whose prompt is removed. -/
def commit (slots : Slots Token State) (request : Request) (run : ActiveRun Token State)
    (entry : Entry) : Slots Token State × Next :=
  let slots := slots.commitEcho request
  let run := { run with suspension := none }
  let text := (run.program.previous?.map slots.language.describe).getD ""
  match slots.language.receive entry run.state with
  | .ok state =>
    let slots := { slots with active := some { run with state } }
    let slots := slots.flush
    let slots := slots.setStatus .running
    slots.slice
  | .error fault =>
    let slots := { slots with active := some run }
    let slots := slots.flush
    (slots.fail (.instruction text run.program.counter fault)).withNext

/-- Presses a key at the prompt of the run, if there is one. -/
def pressAt (slots : Slots Token State) (request : Request) (key : Key) :
    Slots Token State × Next :=
  match slots.active with
  | none => slots.withNext
  | some run =>
    match run.suspension with
    | none => slots.withNext
    | some prompt =>
      let (reaction, prompt, console) := prompt.press key slots.console
      let run := { run with suspension := some prompt }
      let slots := { slots with console, active := some run }
      match reaction with
      | .committed entry => slots.commit request run entry
      | .ignored | .edited => slots.flush.withNext

/-- Presses a key. What is asked for is taken from the status, not from the run. -/
def press (slots : Slots Token State) (key : Key) : Slots Token State × Next :=
  if slots.cancelRequested || (key == .escape && slots.status.isActive) then
    slots.cancel.withNext
  else
    match slots.status with
    | .suspended request =>
      if request != .char || (slots.language.keyChar? key).isSome then slots.pressAt request key
      else slots.withNext
    | _ => slots.withNext

/-- How a call that comes to an end leaves the slots. -/
inductive Makes (slots : Slots Token State) : Call → Slots Token State → Prop where
  | start (source : String) : Makes slots (.start source) (slots.start source).1
  | slice : Makes slots .slice slots.slice.1
  | untilBlocked {point : Slots Token State × Next} {fuel : Nat}
      (blocks : slots.slices fuel = some point) : Makes slots .untilBlocked point.1
  | press (key : Key) : Makes slots (.press key) (slots.press key).1
  | cancel : Makes slots .cancel slots.cancel
  | requestCancel : Makes slots .requestCancel slots.requestCancel
  | clearOutput : Makes slots .clearOutput slots.clearOutput

/-- The prompt at which the run, if there is one, is suspended. -/
def suspension? (slots : Slots Token State) : Option Prompt :=
  slots.active.bind (·.suspension)

/-- Calls that lead from some slots to others. -/
inductive History (first : Slots Token State) : List Call → Slots Token State → Prop where
  | nil : History first [] first
  | snoc {calls : List Call} {before after : Slots Token State} {call : Call}
      (history : History first calls before) (makes : before.Makes call after) :
      History first (calls ++ [call]) after

end Slots

/-! ### The slots of an engine -/

namespace Phase

variable {Token State : Type}

/-- The run of a phase with the prompt at which it is suspended. -/
def active? : Phase Token State → Option (ActiveRun Token State)
  | running run => some { program := run.program, state := run.state }
  | suspended run prompt =>
    some { program := run.program, state := run.state, suspension := some prompt }
  | idle | completed | failed _ | cancelled => none

theorem isSome_active (phase : Phase Token State) :
    phase.active?.isSome = phase.status.isActive := by
  cases phase <;> rfl

theorem failure?_of_active {phase : Phase Token State} (active : phase.status.isActive = true) :
    phase.failure? = none := by
  cases phase with
  | running | suspended => rfl
  | idle | completed | failed | cancelled => cases active

end Phase

namespace Engine

variable {Token State : Type} {engine : Engine Token State} {run : Run Token State}
  {active : Option (ActiveRun Token State)} {status : Status} {error : Option String}

/-- All of an engine but its phase, with slots in place of that. -/
def storing (engine : Engine Token State) (active : Option (ActiveRun Token State))
    (status : Status) (error : Option String) : Slots Token State where
  language := engine.language
  options := engine.options
  observer := engine.observer
  clock := engine.clock
  console := engine.console
  error := error
  active := active
  status := status
  random := engine.random
  cancelRequested := engine.cancelRequested
  statistics := engine.statistics
  events := engine.events
  memory := engine.memory

/-- What the slots are at the end of a call. -/
def slots (engine : Engine Token State) : Slots Token State :=
  engine.storing engine.phase.active? engine.status engine.error?

/-- What a call leaves and returns. -/
def slotsAt {α : Type} (point : Engine Token State × α) : Slots Token State × α :=
  (point.1.slots, point.2)

theorem slots_of_phase {phase : Phase Token State} (isPhase : engine.phase = phase) :
    engine.slots =
      engine.storing phase.active? phase.status (phase.failure?.map Failure.message) := by
  rw [← isPhase]
  rfl

theorem flush_storing (engine : Engine Token State) :
    (engine.storing active status error).flush = engine.publish.storing active status error := by
  let silent : Engine Token State :=
    { engine with console := { engine.console with changes := #[] } }
  change engine.console.changes.foldl (fun slots change => slots.report (.console change))
      (silent.storing active status error) =
    (engine.console.changes.foldl (fun engine change => engine.report (.console change))
      silent).storing active status error
  exact Array.foldl_hom (storing · active status error) fun _ _ => rfl

theorem setStatus_storing (same : engine.status = status) (phase : Phase Token State) :
    (engine.storing active status error).setStatus phase.status =
      (engine.enter phase).storing active phase.status error := by
  subst same
  change (if engine.status = phase.status then _ else _) =
    (if engine.status = phase.status then _ else _ : Engine Token State).storing _ _ _
  split
  · rename_i unchanged
    rw [unchanged]
    rfl
  · rfl

theorem setStatus_slots (phase : Phase Token State) (same : engine.status = status)
    (isActive : active = phase.active?) (isError : error = phase.failure?.map Failure.message) :
    (engine.storing active status error).setStatus phase.status = (engine.enter phase).slots := by
  rw [setStatus_storing same, isActive, isError]
  exact (slots_of_phase (enter_phase engine phase)).symm

theorem withNext_slots (engine : Engine Token State) :
    engine.slots.withNext = slotsAt engine.withNext :=
  rfl

theorem error?_of_active (active : engine.status.isActive = true) : engine.error? = none := by
  rw [error?, Phase.failure?_of_active active, Option.map_none]

theorem error?_of_running (running : engine.phase = .running run) : engine.error? = none := by
  apply error?_of_active
  rw [Engine.status, running]
  rfl

/-! ### The ends of runs -/

/-- A failure leaves nothing of what was stored. -/
theorem fail_storing (same : engine.status = status) (failure : Failure) :
    (engine.storing active status error).fail failure = (engine.fail failure).slots := by
  let dropped : Engine Token State := engine.updateConsole Console.dropEcho
  have flushed : (storing { engine with console := engine.console.dropEcho } none status
      (some failure.message)).flush = dropped.storing none status (some failure.message) :=
    flush_storing _
  have sameToo : (dropped.report (.failed failure.message)).status = status := by
    rw [← same]
    simp [dropped, updateConsole, report, Engine.status]
  change ((storing { engine with console := engine.console.dropEcho } none status
    (some failure.message)).flush.report _).setStatus _ = _
  rw [flushed]
  exact setStatus_slots (.failed failure) sameToo rfl rfl

theorem fail_slots (engine : Engine Token State) (failure : Failure) :
    engine.slots.fail failure = (engine.fail failure).slots :=
  fail_storing rfl failure

theorem cancel_slots (engine : Engine Token State) : engine.slots.cancel = engine.cancel.slots := by
  have isSome := engine.phase.isSome_active
  cases active : engine.status.isActive with
  | false =>
      have noRun : engine.phase.active? = none := by
        rw [← Option.not_isSome_iff_eq_none, isSome]
        exact Bool.eq_false_iff.mp active
      rw [cancel_of_inactive active]
      simp only [Slots.cancel, slots, storing, noRun, error?, Engine.status]
  | true =>
      obtain ⟨found, isActive⟩ := Option.isSome_iff_exists.mp (isSome.trans active)
      let dropped : Engine Token State :=
        { engine with cancelRequested := false, console := engine.console.dropEcho }
      have same : dropped.publish.status = engine.status := by
        simp [Engine.status, dropped]
      have cancels : engine.slots.cancel =
          (dropped.storing none engine.status engine.error?).flush.setStatus .cancelled := by
        simp only [Slots.cancel, slots, storing, isActive]
        rfl
      rw [cancels, flush_storing, cancel_of_active active]
      exact setStatus_slots .cancelled same rfl (error?_of_active active)

/-! ### Calls -/

/-- Only the status is left of the last run. -/
theorem wipe_slots (engine : Engine Token State) :
    engine.slots.wipe = engine.wiped.storing none engine.status none := by
  change (storing { engine with
    cancelRequested := false
    statistics := {}
    random := engine.options.randomStream engine.random
    console := engine.console.wipe } none engine.status none).flush = _
  exact flush_storing _

theorem start_slots (engine : Engine Token State) (source : String) :
    engine.slots.start source = slotsAt (engine.start source) := by
  have same : engine.wiped.status = engine.status := by simp [Engine.status, wiped, updateConsole]
  have wipedLanguage : engine.slots.wipe.language = engine.language := by
    rw [wipe_slots]
    exact engine.wiped_language
  have wipedOptions : engine.slots.wipe.options = engine.options := by
    rw [wipe_slots]
    exact engine.wiped_options
  rw [start_eq]
  cases reads : engine.language.read source with
  | ok program =>
      have starts : engine.slots.start source =
          ({ engine.slots.wipe with
              active := (Phase.running (engine.runFrom program)).active? }.setStatus .running,
            .slice) := by
        simp only [Slots.start, wipedLanguage, wipedOptions, reads]
        rfl
      have begins := setStatus_slots (.running (engine.runFrom program)) same rfl rfl
      rw [starts, wipe_slots]
      exact congrArg (·, Next.slice) begins
  | error error =>
      have starts : engine.slots.start source =
          (engine.slots.wipe.fail (.source error), .done .failed) := by
        simp only [Slots.start, wipedLanguage, reads]
      rw [starts, wipe_slots, fail_storing same]
      simp only [slotsAt]

theorem clearOutput_slots (engine : Engine Token State) :
    engine.slots.clearOutput = engine.clearOutput.slots := by
  rw [slots_of_phase (clearOutput_phase engine)]
  change (storing { engine with console := engine.console.clear } engine.phase.active?
    engine.status engine.error?).flush = _
  exact flush_storing _

section running

variable {token : Token} {result : Except Fault Flow} {machine : Machine Token State}

theorem active_of_running (running : engine.phase = .running run) :
    engine.slots.active = some { program := run.program, state := run.state } := by
  rw [slots_of_phase running]
  rfl

theorem complete_slots (running : engine.phase = .running run) :
    engine.slots.complete = (engine.enter .completed).slots :=
  setStatus_slots .completed rfl rfl (error?_of_running running)

theorem execute_slots (running : engine.phase = .running run)
    (attempts : engine.attempt run token = (result, machine)) :
    engine.slots.execute { program := run.program, state := run.state } token run.program.step =
      (result, (engine.adopt machine).slots) := by
  have performs : engine.language.perform token
      { program := run.program.step, state := run.state, console := engine.console,
        random := engine.random } = (result, machine) := attempts
  rw [slots_of_phase (adopt_phase engine machine), slots_of_phase running]
  simp only [Slots.execute, storing, performs]
  exact congrArg (result, ·) (flush_storing { engine with
    console := machine.console
    random := machine.random
    phase := .running (runOf machine)
    statistics := { engine.statistics with instructions := engine.statistics.instructions + 1 } })

theorem conclude_slots (running : engine.phase = .running run) :
    engine.slots.conclude { program := run.program, state := run.state } =
      (engine.conclude run).slots := by
  cases finishes : engine.language.finish run.state with
  | ok =>
      have concludes : engine.conclude run = engine.enter .completed := by
        simp only [conclude, finishes]
      rw [concludes, ← complete_slots running]
      simp only [Slots.conclude, slots, storing, finishes]
  | error fault =>
      have concludes : engine.conclude run = engine.fail (engine.unfinished run fault) := by
        simp only [conclude, finishes, unfinished]
      rw [concludes, ← fail_slots]
      simp only [Slots.conclude, slots, storing, finishes, unfinished]

theorem suspend_slots (running : engine.phase = .running run) (request : Request) :
    Slots.setStatus
        { engine.slots with
          active := engine.slots.active.map fun run =>
            { run with suspension := some { request } } }
        (.suspended request) =
      (engine.enter (.suspended run { request })).slots := by
  rw [active_of_running running]
  exact setStatus_slots (.suspended run { request }) rfl rfl (error?_of_running running)

/-- The next token does the same to the slots as to the engine. -/
theorem tick_slots (running : engine.phase = .running run) :
    engine.slots.tick = slotsAt engine.tick := by
  have isActive := active_of_running running
  have ticked := tick_ticked running
  generalize engine.tick = result at ticked ⊢
  cases ticked with
  | finished atEnd accepts =>
      have concludes := conclude_slots running
      simp only [conclude, accepts] at concludes
      simp only [Slots.tick, isActive, Program.next_of_atEnd atEnd, concludes]
      simp [slotsAt, slots, storing, Phase.status, Status.next]
  | unfinished atEnd refuses =>
      have concludes := conclude_slots running
      simp only [conclude, refuses] at concludes
      simp only [Slots.tick, isActive, Program.next_of_atEnd atEnd, concludes]
      simp [slotsAt, slots, storing, Status.next, unfinished]
  | proceeded current attempts | yielded current attempts =>
      have executes := execute_slots running attempts
      simp only [Slots.tick, isActive, Program.next_of_current current, executes]
      rfl
  | asked current attempts =>
      rename_i machine request
      have executes := execute_slots running attempts
      have suspends := suspend_slots (adopt_phase engine machine) request
      simp only [Slots.tick, isActive, Program.next_of_current current, executes, suspends]
      simp [slotsAt, slots, storing, Phase.status, Status.next]
  | halted current attempts =>
      rename_i machine
      have executes := execute_slots running attempts
      have completes := complete_slots (adopt_phase engine machine)
      simp only [Slots.tick, isActive, Program.next_of_current current, executes, completes]
      simp [slotsAt, slots, storing, Phase.status, Status.next]
  | failed current attempts =>
      have executes := execute_slots running attempts
      simp only [Slots.tick, isActive, Program.next_of_current current, executes, fail_slots]
      simp [slotsAt, slots, storing, Status.next, failedAt]

end running

theorem running_of_proceed {after : Engine Token State} (running : engine.phase = .running run)
    (proceeds : engine.tick = (after, none)) : after.status = .running := by
  have ticked := tick_ticked running
  rw [proceeds] at ticked
  cases ticked with
  | proceeded => simp [Engine.status, Phase.status]

/-- What remains of a slice is what is not executed yet of its budget. -/
theorem loop_slots {budget executed remaining : Nat} (running : engine.status = .running)
    (left : remaining = budget - (executed + 1)) :
    engine.slots.loop budget executed = slotsAt (engine.ticks remaining) := by
  induction remaining using Nat.strongRecOn generalizing engine executed with
  | ind remaining ih =>
      cases requested : engine.cancelRequested with
      | true =>
          have requestedToo : engine.slots.cancelRequested = true := requested
          rw [ticks_of_requested requested, Slots.loop, if_pos requestedToo, cancel_slots,
            withNext_slots]
      | false =>
          have unrequested : ¬ engine.slots.cancelRequested = true := Bool.eq_false_iff.mp requested
          rcases Phase.status_eq_running_iff.mp running with ⟨run, phase⟩
          have tickSlots := tick_slots phase
          rcases ticks : engine.tick with ⟨after, next?⟩
          rw [ticks] at tickSlots
          rw [Slots.loop, if_neg unrequested, tickSlots]
          cases next? with
          | some next =>
              rw [ticks_of_stop requested ticks]
              rfl
          | none =>
              have runs := running_of_proceed phase ticks
              rw [ticks_eq_of_proceed requested ticks]
              change (if budget ≤ executed + 1 ∨
                after.options.timeSlice ≤ after.clock after.statistics.instructions then _
                else _) = _
              by_cases ended : remaining = 0 ∨
                after.options.timeSlice ≤ after.clock after.statistics.instructions
              · rw [if_pos ended, if_pos (by omega)]
                rfl
              · rw [if_neg ended, if_neg (by omega)]
                exact ih (remaining - 1) (by omega) runs (by omega)

theorem slice_slots (engine : Engine Token State) :
    engine.slots.slice = slotsAt engine.slice := by
  cases requested : engine.cancelRequested with
  | true =>
      have requestedToo : engine.slots.cancelRequested = true := requested
      rw [slice_of_requested requested, Slots.slice, if_pos requestedToo, cancel_slots,
        withNext_slots]
  | false =>
      have unrequested : ¬ engine.slots.cancelRequested = true := Bool.eq_false_iff.mp requested
      rw [Slots.slice, if_neg unrequested]
      by_cases running : engine.status = .running
      · have notOther : ¬ engine.slots.status ≠ .running := fun other => other running
        have counts : engine.countSlice.status = .running := running
        rw [slice_of_running requested running, if_neg notOther]
        exact loop_slots counts rfl
      · have other : engine.slots.status ≠ .running := running
        rw [slice_of_not_running requested running, if_pos other, withNext_slots]

theorem slices_slots (fuel : Nat) (engine : Engine Token State) :
    engine.slots.slices fuel = (slices fuel engine).map slotsAt := by
  induction fuel generalizing engine with
  | zero => rfl
  | succ fuel ih =>
      simp only [Slots.slices, slices, slice_slots]
      rcases engine.slice with ⟨after, next⟩
      cases next with
      | slice => exact ih after
      | key | done => rfl

theorem commitEcho_storing (engine : Engine Token State) (request : Request) :
    (engine.storing active status error).commitEcho request =
      storing { engine with console := engine.consoleAfter request } active status error := by
  cases request with
  | char => rfl
  | line form => rfl

/-- The answer is accepted or refused alike, whatever its prompt has counted. -/
theorem commit_slots {prompt pressed : Prompt} (suspended : engine.phase = .suspended run prompt)
    (entry : Entry) :
    let active : ActiveRun Token State :=
      { program := run.program, state := run.state, suspension := some pressed }
    (engine.storing (some active) (.suspended prompt.request) none).commit prompt.request active
        entry =
      slotsAt (follow (engine.commitTo run prompt.request entry)) := by
  intro active
  let committed : Engine Token State :=
    { engine with console := engine.consoleAfter prompt.request }
  have same : committed.publish.status = .suspended prompt.request := by
    simp [Engine.status, committed, suspended, Phase.status]
  cases receives : engine.language.receive entry run.state with
  | ok state =>
      have commits :
          (engine.storing (some active) (.suspended prompt.request) none).commit prompt.request
              active entry =
            ((committed.storing (some { program := run.program, state })
              (.suspended prompt.request) none).flush.setStatus .running).slice := by
        simp only [Slots.commit, commitEcho_storing]
        simp only [storing, active, receives]
        rfl
      have resumes := setStatus_slots (.running { program := run.program, state }) same rfl rfl
      have accepts : engine.commitTo run prompt.request entry =
          (committed.publish.enter (.running { program := run.program, state }), true) := by
        simp only [commitTo, receives]
        rfl
      rw [commits, flush_storing, accepts]
      exact (congrArg Slots.slice resumes).trans (slice_slots _)
  | error fault =>
      have commits :
          (engine.storing (some active) (.suspended prompt.request) none).commit prompt.request
              active entry =
            ((committed.storing (some { program := run.program, state := run.state })
              (.suspended prompt.request) none).flush.fail
                (engine.refusedAt run fault)).withNext := by
        simp only [Slots.commit, commitEcho_storing]
        simp only [storing, active, receives]
        rfl
      have refuses : engine.commitTo run prompt.request entry =
          (committed.publish.fail (engine.refusedAt run fault), false) := by
        simp only [commitTo, receives]
        rfl
      rw [commits, flush_storing, fail_storing same, withNext_slots, refuses]
      rfl

theorem pressAt_slots {prompt : Prompt} (suspended : engine.phase = .suspended run prompt)
    (key : Key) :
    engine.slots.pressAt prompt.request key =
      slotsAt (follow (engine.respondAt run prompt key)) := by
  rw [slots_of_phase suspended]
  rcases presses : prompt.press key engine.console with ⟨reaction, pressed, console⟩
  cases reaction with
  | ignored | edited =>
      let edited : Engine Token State := { engine with console, phase := .suspended run pressed }
      have sameRequest : pressed.request = prompt.request := by
        have kept := Prompt.press_request prompt key engine.console
        rwa [presses] at kept
      have responds : engine.respondAt run prompt key = (edited.publish, false) := by
        simp only [respondAt, presses]
        rfl
      have ignores :
          (engine.storing (Phase.suspended run prompt).active? (.suspended prompt.request)
              none).pressAt prompt.request key =
            ((edited.storing (Phase.suspended run pressed).active? (.suspended pressed.request)
              none).flush).withNext := by
        simp only [Slots.pressAt, storing, Phase.active?, presses, sameRequest]
        rfl
      have left : edited.publish.slots = edited.publish.storing
          (Phase.suspended run pressed).active? (.suspended pressed.request) none :=
        slots_of_phase (publish_phase edited)
      rw [responds]
      refine ignores.trans ?_
      rw [flush_storing, ← left, withNext_slots]
      rfl
  | committed entry =>
      have unchanged : console = engine.console := by
        have kept := Prompt.press_committed_console (congrArg Prod.fst presses)
        rwa [presses] at kept
      have responds : engine.respondAt run prompt key =
          engine.commitTo run prompt.request entry := by
        simp only [respondAt, presses]
      rw [responds, ← commit_slots suspended]
      simp only [Slots.pressAt, storing, Phase.active?, presses, unchanged]
      rfl

theorem press_slots (engine : Engine Token State) (key : Key) :
    engine.slots.press key = slotsAt (engine.press key) := by
  rw [press_eq]
  cases asked : engine.cancelRequested || (key == .escape && engine.status.isActive) with
  | true =>
      have presses : engine.slots.press key = engine.slots.cancel.withNext := if_pos asked
      rw [presses, cancel_slots, withNext_slots]
      simp only [respond, asked, if_true]
      rfl
  | false =>
      simp only [respond, asked, Bool.false_eq_true, if_false]
      rw [Slots.press]
      refine (if_neg (Bool.eq_false_iff.mp asked)).trans ?_
      cases phase : engine.phase with
      | suspended run prompt =>
          have isStatus : engine.slots.status = .suspended prompt.request := by
            rw [slots_of_phase phase]
            rfl
          simp only [isStatus]
          by_cases understood : engine.understands prompt.request key = true
          · rw [if_pos understood, ← pressAt_slots phase]
            exact if_pos understood
          · rw [if_neg understood]
            exact if_neg understood
      | idle | running | completed | failed | cancelled =>
          have isStatus := congrArg Slots.status (slots_of_phase phase)
          simp only [isStatus, storing, Phase.status]
          exact withNext_slots engine

/-! ### Histories -/

theorem Makes.slots {after : Engine Token State} {call : Call} (makes : engine.Makes call after) :
    engine.slots.Makes call after.slots := by
  cases makes with
  | start source =>
      have made : engine.slots.Makes _ _ := .start source
      rwa [start_slots] at made
  | slice =>
      have made : engine.slots.Makes _ _ := .slice
      rwa [slice_slots] at made
  | @untilBlocked point blocks =>
      rcases blocks with ⟨fuel, reached⟩
      have reachedToo : engine.slots.slices fuel = some (slotsAt point) := by
        rw [slices_slots, reached]
        rfl
      exact .untilBlocked reachedToo
  | press key =>
      have made : engine.slots.Makes _ _ := .press key
      rwa [press_slots] at made
  | cancel =>
      have made : engine.slots.Makes _ _ := .cancel
      rwa [cancel_slots] at made
  | requestCancel => exact .requestCancel
  | clearOutput =>
      have made : engine.slots.Makes _ _ := .clearOutput
      rwa [clearOutput_slots] at made

/-- A call of the slots of an engine leaves the slots of the engine that the same call leaves. -/
theorem exists_makes_of_slots {after : Slots Token State} {call : Call}
    (makes : engine.slots.Makes call after) :
    ∃ next, engine.Makes call next ∧ after = next.slots := by
  cases makes with
  | start source =>
      refine ⟨_, .start source, ?_⟩
      rw [start_slots]
      rfl
  | slice =>
      refine ⟨_, .slice, ?_⟩
      rw [slice_slots]
      rfl
  | untilBlocked blocks =>
      rw [slices_slots] at blocks
      rcases Option.map_eq_some_iff.mp blocks with ⟨point, reached, rfl⟩
      exact ⟨point.1, .untilBlocked ⟨_, reached⟩, rfl⟩
  | press key =>
      refine ⟨_, .press key, ?_⟩
      rw [press_slots]
      rfl
  | cancel => exact ⟨_, .cancel, cancel_slots engine⟩
  | requestCancel => exact ⟨_, .requestCancel, rfl⟩
  | clearOutput => exact ⟨_, .clearOutput, clearOutput_slots engine⟩

theorem History.slots {first : Engine Token State} {calls : List Call} {answers : List Answer}
    (history : first.History calls answers engine) : first.slots.History calls engine.slots := by
  induction history with
  | nil => exact .nil
  | snoc history makes ih => exact ih.snoc makes.slots

/-- Whatever calls are made, the slots are those of an engine of which the same calls are made. -/
theorem history_slots_iff {first : Engine Token State} {calls : List Call}
    {slots : Slots Token State} :
    first.slots.History calls slots ↔
      ∃ answers engine, first.History calls answers engine ∧ slots = engine.slots := by
  constructor
  · intro history
    induction history with
    | nil => exact ⟨[], first, .nil, rfl⟩
    | snoc history makes ih =>
        rcases ih with ⟨answers, engine, engineHistory, rfl⟩
        rcases exists_makes_of_slots makes with ⟨next, engineMakes, rfl⟩
        exact ⟨_, next, engineHistory.snoc engineMakes, rfl⟩
  · rintro ⟨answers, engine, history, rfl⟩
    exact history.slots

end Engine

end Esoterica
