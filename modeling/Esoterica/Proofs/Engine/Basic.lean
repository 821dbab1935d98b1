import Esoterica.Engine.Basic
import Esoterica.Proofs.Machine.PlainRun

/-!
# What the operations of an engine do

An engine executes a token on a machine that holds its run and its console, takes the machine back
and reports the changes of the console. `Ticked` and `Responded` list what the next token and a key
can do to an engine, so that later proofs go through these cases and not through the operations.
-/

namespace Esoterica

namespace Phase

variable {Token State : Type}

theorem status_eq_running_iff {phase : Phase Token State} :
    phase.status = .running ↔ ∃ run, phase = .running run := by
  cases phase <;> simp [status]

end Phase

namespace Console

@[simp]
theorem dropEcho_output (console : Console) : console.dropEcho.output = console.output := by
  unfold dropEcho
  split
  · rfl
  · rfl

@[simp]
theorem dropEcho_echo (console : Console) : console.dropEcho.echo = "" := by
  simp only [dropEcho]
  split
  · rename_i isEmpty
    exact String.isEmpty_iff.mp isEmpty
  · rfl

@[simp]
theorem clear_echo (console : Console) : console.clear.echo = console.echo := by
  simp only [clear]
  split
  · rfl
  · rfl

@[simp]
theorem wipe_output (console : Console) : console.wipe.output = "" := by
  unfold wipe clear
  split
  · rename_i isEmpty
    exact String.isEmpty_iff.mp isEmpty
  · rfl

@[simp]
theorem wipe_echo (console : Console) : console.wipe.echo = "" := by
  simp [wipe]

end Console

namespace Request

/-- The typed line that an answer to the request shows in the output. -/
def lineIn (console : Console) : Request → String
  | line _ => console.echo
  | char => ""

end Request

namespace Prompt

/-- A key leaves the console as it was or changes its echo. -/
theorem press_console (prompt : Prompt) (key : Key) (console : Console) :
    (prompt.press key console).2.2 = console ∨
      ∃ echo, (prompt.press key console).2.2 = console.setEcho echo := by
  unfold press
  split
  · split <;> exact Or.inl rfl
  · unfold pressLine
    simp only
    cases key with
    | escape => exact Or.inl rfl
    | enter => exact Or.inl rfl
    | backspace =>
        simp only [Console.rubOut?]
        split
        · exact Or.inl rfl
        · split
          · rename_i erased
            split at erased
            · cases erased
            · cases erased
              exact Or.inr ⟨_, rfl⟩
          · exact Or.inl rfl
    | tab =>
        simp only
        split
        · exact Or.inr ⟨_, rfl⟩
        · exact Or.inl rfl
    | char c =>
        simp only
        split
        · exact Or.inr ⟨_, rfl⟩
        · exact Or.inl rfl

/-- A key does not change what was asked for. -/
theorem press_request (prompt : Prompt) (key : Key) (console : Console) :
    (prompt.press key console).2.1.request = prompt.request := by
  unfold press
  split
  · split <;> rfl
  · unfold pressLine
    simp only
    cases key with
    | escape => rfl
    | enter => rfl
    | backspace =>
        simp only
        split
        · rfl
        · split <;> rfl
    | tab =>
        simp only
        split <;> rfl
    | char c =>
        simp only
        split <;> rfl

theorem eq_enter_of_committed {prompt : Prompt} {form : LineForm} {key : Key} {console : Console}
    {entry : Entry} (asks : prompt.request = .line form)
    (commits : (prompt.press key console).1 = .committed entry) : key = .enter := by
  simp only [press, asks, pressLine] at commits
  cases key with
  | enter => rfl
  | escape => cases commits
  | backspace =>
      simp only at commits
      split at commits
      · cases commits
      · split at commits
        · cases commits
        · cases commits
  | tab | char =>
      simp only at commits
      split at commits
      · cases commits
      · cases commits

/-- The key that commits an answer leaves the console to the engine. -/
theorem press_committed_console {prompt : Prompt} {key : Key} {console : Console} {entry : Entry}
    (commits : (prompt.press key console).1 = .committed entry) :
    (prompt.press key console).2.2 = console := by
  cases asks : prompt.request with
  | char =>
      simp only [press, asks]
      split
      · rfl
      · rfl
  | line form =>
      rw [eq_enter_of_committed asks commits]
      simp only [press, asks, pressLine]

end Prompt

namespace Observer

/-- Whether a cancellation is asked for at one of the events that are told one after the other. -/
def asksAmong (observer : Observer) (memory : List Event) : List Event → Bool
  | [] => false
  | event :: rest =>
    observer.cancelsAt memory event || observer.asksAmong (observer.remembers memory event) rest

variable {observer : Observer}

theorem asksAmong_append (memory first second : List Event) :
    observer.asksAmong memory (first ++ second) =
      (observer.asksAmong memory first ||
        observer.asksAmong (first.foldl observer.remembers memory) second) := by
  induction first generalizing memory with
  | nil => rfl
  | cons event rest ih =>
      simp only [List.cons_append, asksAmong, ih, List.foldl_cons, Bool.or_assoc]

theorem asksAmong_eq_false {events : List Event}
    (quiet : ∀ event ∈ events, ∀ memory, observer.cancelsAt memory event = false)
    (memory : List Event) : observer.asksAmong memory events = false := by
  induction events generalizing memory with
  | nil => rfl
  | cons event rest ih =>
      rcases List.forall_mem_cons.mp quiet with ⟨quietFirst, quietRest⟩
      rw [asksAmong, quietFirst, ih quietRest, Bool.or_false]

end Observer

namespace Engine

variable {Token State : Type}

/-- Reports events one after the other. -/
def emit (engine : Engine Token State) (events : List Event) : Engine Token State :=
  { engine with
    events := engine.events ++ events.toArray
    memory := events.foldl engine.observer.remembers engine.memory
    cancelRequested := engine.cancelRequested || engine.observer.asksAmong engine.memory events }

section emit

variable (engine : Engine Token State) (events : List Event)

@[simp]
theorem emit_language : (engine.emit events).language = engine.language :=
  rfl

@[simp]
theorem emit_options : (engine.emit events).options = engine.options :=
  rfl

@[simp]
theorem emit_observer : (engine.emit events).observer = engine.observer :=
  rfl

@[simp]
theorem emit_console : (engine.emit events).console = engine.console :=
  rfl

@[simp]
theorem emit_random : (engine.emit events).random = engine.random :=
  rfl

@[simp]
theorem emit_phase : (engine.emit events).phase = engine.phase :=
  rfl

@[simp]
theorem emit_statistics : (engine.emit events).statistics = engine.statistics :=
  rfl

end emit

theorem emit_nil (engine : Engine Token State) : engine.emit [] = engine := by
  simp [emit, Observer.asksAmong]

theorem emit_emit (engine : Engine Token State) (first second : List Event) :
    (engine.emit first).emit second = engine.emit (first ++ second) := by
  simp [emit, Observer.asksAmong_append, Bool.or_assoc]

theorem report_eq (engine : Engine Token State) (event : Event) :
    engine.report event = engine.emit [event] := by
  simp [report, emit, Observer.asksAmong]

theorem foldl_report (changes : List Change) (engine : Engine Token State) :
    changes.foldl (fun engine change => engine.report (.console change)) engine =
      engine.emit (changes.map .console) := by
  induction changes generalizing engine with
  | nil => exact (emit_nil engine).symm
  | cons change rest ih =>
      rw [List.foldl_cons, ih, report_eq, emit_emit]
      rfl

/-- Reporting the changes of the console makes them events and forgets them. -/
theorem publish_eq (engine : Engine Token State) :
    engine.publish =
      emit { engine with console := { engine.console with changes := #[] } }
        (engine.console.changes.toList.map .console) := by
  unfold publish
  rw [← Array.foldl_toList]
  exact foldl_report engine.console.changes.toList _

/-- What is reported when the status becomes another one. -/
def announcement (before after : Status) : List Event :=
  if before = after then [] else [.status after]

theorem enter_eq (engine : Engine Token State) (phase : Phase Token State) :
    engine.enter phase =
      emit { engine with phase } (announcement engine.status phase.status) := by
  unfold enter announcement
  simp only
  split
  · exact (emit_nil _).symm
  · exact report_eq _ _

section fields

variable (engine : Engine Token State) (phase : Phase Token State) (change : Console → Console)

@[simp]
theorem publish_phase : engine.publish.phase = engine.phase := by
  rw [publish_eq, emit_phase]

@[simp]
theorem publish_language : engine.publish.language = engine.language := by
  rw [publish_eq, emit_language]

@[simp]
theorem publish_options : engine.publish.options = engine.options := by
  rw [publish_eq, emit_options]

@[simp]
theorem publish_observer : engine.publish.observer = engine.observer := by
  rw [publish_eq, emit_observer]

@[simp]
theorem publish_random : engine.publish.random = engine.random := by
  rw [publish_eq, emit_random]

@[simp]
theorem publish_statistics : engine.publish.statistics = engine.statistics := by
  rw [publish_eq, emit_statistics]

@[simp]
theorem publish_console :
    engine.publish.console = { engine.console with changes := #[] } := by
  rw [publish_eq, emit_console]

@[simp]
theorem clearOutput_phase : engine.clearOutput.phase = engine.phase :=
  publish_phase _

@[simp]
theorem clearOutput_language : engine.clearOutput.language = engine.language :=
  publish_language _

@[simp]
theorem clearOutput_statistics : engine.clearOutput.statistics = engine.statistics :=
  publish_statistics _

@[simp]
theorem enter_phase : (engine.enter phase).phase = phase := by
  rw [enter_eq, emit_phase]

@[simp]
theorem enter_status : (engine.enter phase).status = phase.status := by
  simp [status]

@[simp]
theorem enter_language : (engine.enter phase).language = engine.language := by
  rw [enter_eq, emit_language]

@[simp]
theorem enter_observer : (engine.enter phase).observer = engine.observer := by
  rw [enter_eq, emit_observer]

@[simp]
theorem enter_random : (engine.enter phase).random = engine.random := by
  rw [enter_eq, emit_random]

@[simp]
theorem enter_statistics : (engine.enter phase).statistics = engine.statistics := by
  rw [enter_eq, emit_statistics]

@[simp]
theorem enter_console : (engine.enter phase).console = engine.console := by
  rw [enter_eq, emit_console]

end fields

theorem cancel_of_active {engine : Engine Token State} (active : engine.status.isActive = true) :
    engine.cancel =
      (publish { engine with
        cancelRequested := false
        console := engine.console.dropEcho }).enter .cancelled :=
  if_pos active

theorem cancel_of_inactive {engine : Engine Token State}
    (inactive : engine.status.isActive = false) :
    engine.cancel = { engine with cancelRequested := false } :=
  if_neg (Bool.eq_false_iff.mp inactive)

@[simp]
theorem cancel_language (engine : Engine Token State) :
    engine.cancel.language = engine.language := by
  cases active : engine.status.isActive with
  | true => simp [cancel_of_active active]
  | false => simp [cancel_of_inactive active]

@[simp]
theorem cancel_observer (engine : Engine Token State) :
    engine.cancel.observer = engine.observer := by
  cases active : engine.status.isActive with
  | true => simp [cancel_of_active active]
  | false => simp [cancel_of_inactive active]

@[simp]
theorem cancel_statistics (engine : Engine Token State) :
    engine.cancel.statistics = engine.statistics := by
  cases active : engine.status.isActive with
  | true => simp [cancel_of_active active]
  | false => simp [cancel_of_inactive active]

theorem cancel_phase (engine : Engine Token State) :
    engine.cancel.phase = if engine.status.isActive then .cancelled else engine.phase := by
  cases active : engine.status.isActive with
  | true => simp [cancel_of_active active]
  | false => simp [cancel_of_inactive active]

/-- The engine with nothing left of its last run but the phase. -/
def wiped (engine : Engine Token State) : Engine Token State :=
  updateConsole
    { engine with
      cancelRequested := false
      statistics := {}
      random := engine.options.randomStream engine.random }
    Console.wipe

@[simp]
theorem wiped_language (engine : Engine Token State) : engine.wiped.language = engine.language := by
  simp [wiped, updateConsole]

@[simp]
theorem wiped_options (engine : Engine Token State) : engine.wiped.options = engine.options := by
  simp [wiped, updateConsole]

/-- The run of a program from its first token. -/
def runFrom (engine : Engine Token State) (program : Program Token) : Run Token State where
  program := program.rewind
  state := engine.language.initial engine.options

theorem start_eq (engine : Engine Token State) (source : String) :
    engine.start source =
      match engine.language.read source with
      | .ok program => (engine.wiped.enter (.running (engine.runFrom program)), .slice)
      | .error error => (engine.wiped.fail (.source error), .done .failed) := by
  change (match engine.wiped.language.read source with
    | .ok program =>
      (engine.wiped.enter (.running
        ⟨program.rewind, engine.wiped.language.initial engine.wiped.options⟩), Next.slice)
    | .error error => (engine.wiped.fail (.source error), .done .failed)) = _
  rw [wiped_language, wiped_options]
  rfl

/-- The machine that carries on a run from a program. -/
def machineAt (engine : Engine Token State) (program : Program Token) (state : State) :
    Machine Token State where
  program := program
  state := state
  console := engine.console
  random := engine.random

/-- The run that a machine carries on. -/
def runOf (machine : Machine Token State) : Run Token State where
  program := machine.program
  state := machine.state

/-- Takes back the machine of an executed token and reports the changes of its console. -/
def adopt (engine : Engine Token State) (machine : Machine Token State) : Engine Token State :=
  publish
    { engine with
      console := machine.console
      random := machine.random
      phase := .running (runOf machine)
      statistics :=
        { engine.statistics with instructions := engine.statistics.instructions + 1 } }

theorem perform_eq (engine : Engine Token State) (token : Token) (program : Program Token)
    (state : State) :
    engine.perform token program state =
      ((engine.language.perform token (engine.machineAt program state)).1,
        engine.adopt (engine.language.perform token (engine.machineAt program state)).2) := by
  unfold perform Language.perform machineAt
  simp only
  cases engine.language.execute token
      { program, state, console := engine.console, random := engine.random } with
  | ok flow machine => rfl
  | error fault machine => rfl

section fields

variable (engine : Engine Token State) (machine : Machine Token State) (failure : Failure)

@[simp]
theorem adopt_phase : (engine.adopt machine).phase = .running (runOf machine) := by
  simp [adopt]

@[simp]
theorem adopt_language : (engine.adopt machine).language = engine.language := by
  simp [adopt]

@[simp]
theorem adopt_observer : (engine.adopt machine).observer = engine.observer := by
  simp [adopt]

@[simp]
theorem adopt_console :
    (engine.adopt machine).console = { machine.console with changes := #[] } := by
  simp [adopt]

@[simp]
theorem adopt_random : (engine.adopt machine).random = machine.random := by
  simp [adopt]

@[simp]
theorem adopt_instructions :
    (engine.adopt machine).statistics.instructions = engine.statistics.instructions + 1 := by
  simp [adopt]

@[simp]
theorem fail_phase : (engine.fail failure).phase = .failed failure := by
  simp [fail]

@[simp]
theorem fail_status : (engine.fail failure).status = .failed := by
  simp [fail, Phase.status]

@[simp]
theorem fail_language : (engine.fail failure).language = engine.language := by
  simp [fail, report, updateConsole]

@[simp]
theorem fail_observer : (engine.fail failure).observer = engine.observer := by
  simp [fail, report, updateConsole]

@[simp]
theorem fail_statistics : (engine.fail failure).statistics = engine.statistics := by
  simp [fail, report, updateConsole]

@[simp]
theorem fail_console :
    (engine.fail failure).console = { engine.console.dropEcho with changes := #[] } := by
  simp [fail, report, updateConsole]

end fields

/-- The failure of a run whose program may not end behind its last token. -/
def unfinished (engine : Engine Token State) (run : Run Token State) (fault : Fault) : Failure :=
  .instruction ((run.program.tokens.back?.map engine.language.describe).getD "")
    (max 1 run.program.counter) fault

/-- The failure of a run at its next token. -/
def failedAt (engine : Engine Token State) (run : Run Token State) (token : Token)
    (fault : Fault) : Failure :=
  .instruction (engine.language.describe token) (run.program.counter + 1) fault

/-- The result of the next token of a run and the machine after it. -/
def attempt (engine : Engine Token State) (run : Run Token State) (token : Token) :
    Except Fault Flow × Machine Token State :=
  engine.language.perform token (engine.machineAt run.program.step run.state)

/-- What the next token of a run can do to an engine, and what then comes next. -/
inductive Ticked (engine : Engine Token State) (run : Run Token State) :
    Engine Token State × Option Next → Prop where
  | finished (atEnd : run.program.current? = none)
      (accepts : engine.language.finish run.state = .ok ()) :
      Ticked engine run (engine.enter .completed, some (.done .completed))
  | unfinished {fault : Fault} (atEnd : run.program.current? = none)
      (refuses : engine.language.finish run.state = .error fault) :
      Ticked engine run (engine.fail (engine.unfinished run fault), some (.done .failed))
  | proceeded {token : Token} {machine : Machine Token State}
      (current : run.program.current? = some token)
      (attempts : engine.attempt run token = (.ok .proceed, machine)) :
      Ticked engine run (engine.adopt machine, none)
  | yielded {token : Token} {machine : Machine Token State}
      (current : run.program.current? = some token)
      (attempts : engine.attempt run token = (.ok .yield, machine)) :
      Ticked engine run (engine.adopt machine, some .slice)
  | asked {token : Token} {machine : Machine Token State} {request : Request}
      (current : run.program.current? = some token)
      (attempts : engine.attempt run token = (.ok (.ask request), machine)) :
      Ticked engine run
        ((engine.adopt machine).enter (.suspended (runOf machine) { request }),
          some (.key request))
  | halted {token : Token} {machine : Machine Token State}
      (current : run.program.current? = some token)
      (attempts : engine.attempt run token = (.ok .halt, machine)) :
      Ticked engine run ((engine.adopt machine).enter .completed, some (.done .completed))
  | failed {token : Token} {machine : Machine Token State} {fault : Fault}
      (current : run.program.current? = some token)
      (attempts : engine.attempt run token = (.error fault, machine)) :
      Ticked engine run
        ((engine.adopt machine).fail (engine.failedAt run token fault), some (.done .failed))

theorem conclude_ticked {engine : Engine Token State} {run : Run Token State}
    (atEnd : run.program.current? = none) :
    Ticked engine run (engine.conclude run, some (engine.conclude run).status.next) := by
  unfold conclude
  cases ending : engine.language.finish run.state with
  | ok =>
      simp only [enter_status]
      exact .finished atEnd ending
  | error fault =>
      simp only [fail_status]
      exact .unfinished atEnd ending

/-- A tick of a running engine does one of the things that the next token can do. -/
theorem tick_ticked {engine : Engine Token State} {run : Run Token State}
    (running : engine.phase = .running run) : Ticked engine run engine.tick := by
  cases current : run.program.current? with
  | none =>
      simp only [tick, running, Program.next_of_atEnd current]
      exact conclude_ticked current
  | some token =>
      rcases attempts : engine.attempt run token with ⟨result, machine⟩
      have performs : engine.perform token run.program.step run.state =
          (result, engine.adopt machine) := by
        rw [perform_eq]
        exact congrArg (fun attempt => (attempt.1, engine.adopt attempt.2)) attempts
      simp only [tick, running, Program.next_of_current current, performs]
      cases result with
      | error fault =>
          simp only [fail_status, adopt_language]
          exact .failed current attempts
      | ok flow =>
          cases flow with
          | proceed => exact .proceeded current attempts
          | yield => exact .yielded current attempts
          | ask request =>
              simp only [suspend, adopt_phase, enter_status]
              exact .asked current attempts
          | halt =>
              simp only [enter_status]
              exact .halted current attempts

theorem Ticked.unique {engine : Engine Token State} {run : Run Token State}
    {left right : Engine Token State × Option Next} (tickedLeft : Ticked engine run left)
    (tickedRight : Ticked engine run right) : left = right := by
  cases tickedLeft <;> cases tickedRight <;> simp_all

theorem tick_of_not_running {engine : Engine Token State} (stands : engine.status ≠ .running) :
    engine.tick = (engine, some engine.status.next) := by
  unfold tick
  split
  · rename_i run running
    exact absurd (by rw [status, running]; rfl) stands
  · rfl

/-- The answer that a key commits at a prompt. -/
def committedAt? (engine : Engine Token State) (prompt : Prompt) (key : Key) : Option Answer :=
  match prompt.press key engine.console with
  | (.committed entry, _, _) => some { entry, line := prompt.request.lineIn engine.console }
  | _ => none

/-- The answer that a key commits: the line it ends, or the character that was asked for. -/
def committed? (engine : Engine Token State) (key : Key) : Option Answer :=
  if engine.cancelRequested || (key == .escape && engine.status.isActive) then none
  else
    match engine.phase with
    | .suspended _ prompt =>
      if engine.understands prompt.request key then engine.committedAt? prompt key else none
    | _ => none

/-- What is committed is what the key commits at the prompt, with the line typed there. -/
theorem press_of_commits {engine : Engine Token State} {run : Run Token State} {prompt : Prompt}
    {key : Key} {answer : Answer} (suspended : engine.phase = .suspended run prompt)
    (commits : engine.committed? key = some answer) :
    (prompt.press key engine.console).1 = .committed answer.entry ∧
      answer.line = prompt.request.lineIn engine.console := by
  simp only [committed?, suspended] at commits
  split at commits
  · cases commits
  · split at commits
    · unfold committedAt? at commits
      split at commits
      · rename_i presses
        cases commits
        exact ⟨congrArg Prod.fst presses, rfl⟩
      · cases commits
    · cases commits

/-- The console when the answer to a request has been committed. -/
def consoleAfter (engine : Engine Token State) (request : Request) : Console :=
  match request with
  | .line _ => engine.console.commit engine.language.keepsLines
  | .char => engine.console

/-- The failure of a run whose answer was refused. -/
def refusedAt (engine : Engine Token State) (run : Run Token State) (fault : Fault) : Failure :=
  .instruction ((run.program.previous?.map engine.language.describe).getD "")
    run.program.counter fault

/-! ### Keys

The slice that follows an accepted answer is kept apart from what the key itself does. The run stays
with the engine here until another phase takes its place.
-/

/-- Commits an answer; says whether the run goes on with a slice. -/
def commitTo (engine : Engine Token State) (run : Run Token State) (request : Request)
    (entry : Entry) : Engine Token State × Bool :=
  let committed := publish { engine with console := engine.consoleAfter request }
  match engine.language.receive entry run.state with
  | .ok state => (committed.enter (.running { program := run.program, state }), true)
  | .error fault => (committed.fail (engine.refusedAt run fault), false)

/-- What a key does at a prompt, and whether a slice follows. -/
def respondAt (engine : Engine Token State) (run : Run Token State) (prompt : Prompt) (key : Key) :
    Engine Token State × Bool :=
  match prompt.press key engine.console with
  | (.committed entry, _, _) => engine.commitTo run prompt.request entry
  | (_, prompt, console) =>
    (publish { engine with console, phase := .suspended run prompt }, false)

/-- What a key does before the slice that may follow, and whether one follows. -/
def respond (engine : Engine Token State) (key : Key) : Engine Token State × Bool :=
  if engine.cancelRequested || (key == .escape && engine.status.isActive) then
    (engine.cancel, false)
  else
    match engine.phase with
    | .suspended run prompt =>
      if engine.understands prompt.request key then engine.respondAt run prompt key
      else (engine, false)
    | _ => (engine, false)

/-- Runs the slice that follows a response, if one does. -/
def follow (response : Engine Token State × Bool) : Engine Token State × Next :=
  if response.2 then response.1.slice else response.1.withNext

/-- The engine with another phase, of which nothing is reported. -/
def withPhase (engine : Engine Token State) (phase : Phase Token State) : Engine Token State :=
  { engine with phase }

/-- Which phase an engine leaves does not matter, if its status becomes another one. -/
theorem enter_withPhase {engine : Engine Token State} {before after : Phase Token State}
    (changes : engine.status ≠ after.status) (changesToo : before.status ≠ after.status) :
    (engine.withPhase before).enter after = engine.enter after := by
  have changesToo : (engine.withPhase before).status ≠ after.status := changesToo
  unfold enter
  simp only
  rw [if_neg changes, if_neg changesToo]
  rfl

theorem publish_withPhase (engine : Engine Token State) (phase : Phase Token State) :
    (engine.withPhase phase).publish = engine.publish.withPhase phase := by
  simp only [publish_eq, withPhase, emit]

theorem fail_withPhase {engine : Engine Token State} {before : Phase Token State}
    {failure : Failure} (changes : engine.status ≠ .failed) (changesToo : before.status ≠ .failed) :
    (engine.withPhase before).fail failure = engine.fail failure := by
  let dropped : Engine Token State := { engine with console := engine.console.dropEcho }
  change ((dropped.withPhase before).publish.report _).enter _ = (dropped.publish.report _).enter _
  rw [publish_withPhase]
  change ((dropped.publish.report _).withPhase before).enter _ = _
  apply enter_withPhase
  · simpa [report, status, dropped, Phase.status] using changes
  · exact changesToo

/-- A run that was suspended is resumed alike when the engine has given it up. -/
theorem resume_withPhase {engine : Engine Token State} {run : Run Token State} {prompt : Prompt}
    (suspended : engine.phase = .suspended run prompt) (entry : Entry) :
    resume { engine with console := engine.consoleAfter prompt.request, phase := .idle } run entry =
      follow (engine.commitTo run prompt.request entry) := by
  let committed : Engine Token State :=
    { engine with console := engine.consoleAfter prompt.request }
  have status : committed.publish.status = .suspended prompt.request := by
    rw [status, publish_phase]
    exact congrArg Phase.status suspended
  change (committed.withPhase .idle).resume run entry = _
  unfold resume commitTo
  rw [publish_withPhase]
  change (match engine.language.receive entry run.state with
    | .ok state => _
    | .error fault => _) = _
  cases engine.language.receive entry run.state with
  | ok state =>
      simp only
      rw [enter_withPhase]
      · rfl
      · simp [status, Phase.status]
      · simp [Phase.status]
  | error fault =>
      simp only
      rw [fail_withPhase]
      · rfl
      · simp [status]
      · simp [Phase.status]

theorem answer_eq {engine : Engine Token State} {run : Run Token State} {prompt : Prompt}
    (suspended : engine.phase = .suspended run prompt) (key : Key) :
    engine.answer run prompt key = follow (engine.respondAt run prompt key) := by
  have resumes := resume_withPhase suspended
  unfold answer respondAt
  simp only
  rcases presses : prompt.press key engine.console with ⟨reaction, pressed, console⟩
  cases reaction with
  | ignored => rfl
  | edited => rfl
  | committed entry =>
      have unchanged : console = engine.console := by
        have := Prompt.press_committed_console (congrArg Prod.fst presses)
        rwa [presses] at this
      simp only
      rw [← resumes entry, unchanged]
      rfl

/-- A key press is the response to the key and the slice that may follow. -/
theorem press_eq (engine : Engine Token State) (key : Key) :
    engine.press key = follow (engine.respond key) := by
  unfold press respond
  split
  · rfl
  · cases phase : engine.phase with
    | suspended run prompt =>
        simp only
        split
        · exact answer_eq phase key
        · rfl
    | idle => rfl
    | running run => rfl
    | completed => rfl
    | failed failure => rfl
    | cancelled => rfl

/-- What a key can do to an engine, and whether a slice follows. -/
inductive Responded (engine : Engine Token State) (key : Key) :
    Engine Token State × Bool → Prop where
  | cancelled (uncommitted : engine.committed? key = none)
      (wanted : (engine.cancelRequested || (key == .escape && engine.status.isActive)) = true) :
      Responded engine key (engine.cancel, false)
  | ignored (uncommitted : engine.committed? key = none) : Responded engine key (engine, false)
  | edited {run : Run Token State} {prompt : Prompt}
      (suspended : engine.phase = .suspended run prompt)
      (uncommitted : engine.committed? key = none) :
      Responded engine key
        (publish
          { engine with
            console := (prompt.press key engine.console).2.2
            phase := .suspended run (prompt.press key engine.console).2.1 }, false)
  | accepted {run : Run Token State} {prompt : Prompt} {answer : Answer} {state : State}
      (suspended : engine.phase = .suspended run prompt)
      (commits : engine.committed? key = some answer)
      (line : answer.line = prompt.request.lineIn engine.console)
      (receives : engine.language.receive answer.entry run.state = .ok state) :
      Responded engine key
        ((publish { engine with console := engine.consoleAfter prompt.request }).enter
          (.running { program := run.program, state }), true)
  | refused {run : Run Token State} {prompt : Prompt} {answer : Answer} {fault : Fault}
      (suspended : engine.phase = .suspended run prompt)
      (commits : engine.committed? key = some answer)
      (line : answer.line = prompt.request.lineIn engine.console)
      (refuses : engine.language.receive answer.entry run.state = .error fault) :
      Responded engine key
        ((publish { engine with console := engine.consoleAfter prompt.request }).fail
          (engine.refusedAt run fault), false)

theorem respondAt_responded {engine : Engine Token State} {run : Run Token State} {prompt : Prompt}
    {key : Key} (suspended : engine.phase = .suspended run prompt)
    (committed : engine.committed? key = engine.committedAt? prompt key) :
    Responded engine key (engine.respondAt run prompt key) := by
  have edited : engine.committed? key = none → Responded engine key _ :=
    Responded.edited suspended
  unfold committedAt? at committed
  unfold respondAt
  rcases presses : prompt.press key engine.console with ⟨reaction, pressed, console⟩
  simp only [presses] at committed edited
  cases reaction with
  | ignored => exact edited committed
  | edited => exact edited committed
  | committed entry =>
      unfold commitTo
      cases received : engine.language.receive entry run.state with
      | ok state =>
          simp only [received]
          exact .accepted suspended committed rfl received
      | error fault =>
          simp only [received]
          exact .refused suspended committed rfl received

/-- The response to a key is one of those that a key can have. -/
theorem respond_responded (engine : Engine Token State) (key : Key) :
    Responded engine key (engine.respond key) := by
  cases asked : engine.cancelRequested || (key == .escape && engine.status.isActive) with
  | true =>
      simp only [respond, asked, if_true]
      exact .cancelled (by simp only [committed?, asked, if_true]) asked
  | false =>
      simp only [respond, asked, Bool.false_eq_true, if_false]
      cases phase : engine.phase with
      | suspended run prompt =>
          simp only
          split
          · rename_i understood
            apply respondAt_responded phase
            simp only [committed?, asked, phase, understood, Bool.false_eq_true, if_false, if_true]
          · rename_i misunderstood
            apply Responded.ignored
            simp only [committed?, asked, phase, misunderstood, Bool.false_eq_true, if_false]
      | idle | running | completed | failed | cancelled =>
          apply Responded.ignored
          simp only [committed?, asked, phase, Bool.false_eq_true, if_false]

theorem respond_of_requested {engine : Engine Token State}
    (requested : engine.cancelRequested = true) (key : Key) :
    engine.respond key = (engine.cancel, false) := by
  simp [respond, requested]

/-- An answer that is committed is accepted or refused. -/
theorem respond_of_commits {engine : Engine Token State} {run : Run Token State} {prompt : Prompt}
    {key : Key} {answer : Answer} (suspended : engine.phase = .suspended run prompt)
    (commits : engine.committed? key = some answer) :
    (∃ state, engine.language.receive answer.entry run.state = .ok state ∧
        engine.respond key =
          ((publish { engine with console := engine.consoleAfter prompt.request }).enter
            (.running { program := run.program, state }), true)) ∨
      ∃ fault, engine.language.receive answer.entry run.state = .error fault ∧
        engine.respond key =
          ((publish { engine with console := engine.consoleAfter prompt.request }).fail
            (engine.refusedAt run fault), false) := by
  have responded := respond_responded engine key
  generalize engine.respond key = response at responded ⊢
  cases responded with
  | cancelled uncommitted | ignored uncommitted | edited _ uncommitted =>
      simp [uncommitted] at commits
  | accepted suspendedToo commitsToo line receives =>
      cases suspendedToo.symm.trans suspended
      cases commitsToo.symm.trans commits
      exact Or.inl ⟨_, receives, rfl⟩
  | refused suspendedToo commitsToo line refuses =>
      cases suspendedToo.symm.trans suspended
      cases commitsToo.symm.trans commits
      exact Or.inr ⟨_, refuses, rfl⟩

end Engine

end Esoterica
