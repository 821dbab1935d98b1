import Esoterica.Proofs.Engine.Basic

/-!
# Changes that go unnoticed

There are parts of an engine that tokens and keys never look at: the schedule, which only decides
how long slices are, and the events that the host has not yet seen. A change of such a part goes
unnoticed. It makes no difference whether a token is executed or a key is pressed before the change
or behind it.
-/

namespace Esoterica

namespace Engine

variable {Token State : Type}

/-- The engine with one more instruction counted, after which another part of the stream is left. -/
def countInstruction (engine : Engine Token State) (random : RandomStream) : Engine Token State :=
  { engine with
    random
    statistics := { engine.statistics with instructions := engine.statistics.instructions + 1 } }

/--
The engine is altered in a way that leaves alone what tokens and keys look at, and that can change
places with what they do to an engine.
-/
structure Unnoticed (alter : Engine Token State → Engine Token State) : Prop where
  language_eq : ∀ engine, (alter engine).language = engine.language
  console_eq : ∀ engine, (alter engine).console = engine.console
  random_eq : ∀ engine, (alter engine).random = engine.random
  phase_eq : ∀ engine, (alter engine).phase = engine.phase
  cancelRequested_eq : ∀ engine, (alter engine).cancelRequested = engine.cancelRequested
  emit : ∀ engine events, (alter engine).emit events = alter (engine.emit events)
  unrequest : ∀ engine, { alter engine with cancelRequested := false } =
    alter { engine with cancelRequested := false }
  withPhase : ∀ engine phase, (alter engine).withPhase phase = alter (engine.withPhase phase)
  withConsole : ∀ engine console, { alter engine with console } = alter { engine with console }
  countInstruction : ∀ engine random,
    (alter engine).countInstruction random = alter (engine.countInstruction random)

namespace Unnoticed

variable {alter : Engine Token State → Engine Token State}

theorem status_eq (unnoticed : Unnoticed alter) (engine : Engine Token State) :
    (alter engine).status = engine.status :=
  congrArg Phase.status (unnoticed.phase_eq engine)

theorem publish (unnoticed : Unnoticed alter) (engine : Engine Token State) :
    (alter engine).publish = alter engine.publish := by
  rw [publish_eq, publish_eq, unnoticed.console_eq, unnoticed.withConsole, unnoticed.emit]

theorem updateConsole (unnoticed : Unnoticed alter) (engine : Engine Token State)
    (edit : Console → Console) :
    (alter engine).updateConsole edit = alter (engine.updateConsole edit) := by
  unfold Engine.updateConsole
  rw [unnoticed.console_eq, unnoticed.withConsole, unnoticed.publish]

theorem enter (unnoticed : Unnoticed alter) (engine : Engine Token State)
    (phase : Phase Token State) : (alter engine).enter phase = alter (engine.enter phase) := by
  rw [enter_eq, enter_eq, unnoticed.status_eq]
  exact (congrArg (Engine.emit · _) (unnoticed.withPhase engine phase)).trans (unnoticed.emit _ _)

theorem fail (unnoticed : Unnoticed alter) (engine : Engine Token State) (failure : Failure) :
    (alter engine).fail failure = alter (engine.fail failure) := by
  unfold Engine.fail
  rw [unnoticed.updateConsole, report_eq, report_eq, unnoticed.emit, unnoticed.enter]

theorem cancel (unnoticed : Unnoticed alter) (engine : Engine Token State) :
    (alter engine).cancel = alter engine.cancel := by
  unfold Engine.cancel
  simp only [unnoticed.unrequest, unnoticed.status_eq, unnoticed.updateConsole, unnoticed.enter]
  split
  · rfl
  · rfl

theorem attempt (unnoticed : Unnoticed alter) (engine : Engine Token State)
    (run : Run Token State) (token : Token) :
    (alter engine).attempt run token = engine.attempt run token := by
  unfold Engine.attempt machineAt
  rw [unnoticed.language_eq, unnoticed.console_eq, unnoticed.random_eq]

theorem adopt (unnoticed : Unnoticed alter) (engine : Engine Token State)
    (machine : Machine Token State) :
    (alter engine).adopt machine = alter (engine.adopt machine) := by
  have steps (engine : Engine Token State) : engine.adopt machine =
      (Engine.withPhase
        { engine.countInstruction machine.random with console := machine.console }
        (.running (runOf machine))).publish := rfl
  rw [steps, steps, unnoticed.countInstruction, unnoticed.withConsole, unnoticed.withPhase,
    unnoticed.publish]

/-- A token does the same before the change and behind it. -/
theorem ticked (unnoticed : Unnoticed alter) {engine : Engine Token State}
    {run : Run Token State} {result : Engine Token State × Option Next}
    (ticked : Ticked engine run result) :
    Ticked (alter engine) run (alter result.1, result.2) := by
  have finish := unnoticed.language_eq engine
  cases ticked with
  | finished atEnd accepts =>
      rw [← finish] at accepts
      rw [← unnoticed.enter]
      exact .finished atEnd accepts
  | unfinished atEnd refuses =>
      have same : ∀ fault, (alter engine).unfinished run fault = engine.unfinished run fault := by
        intro fault
        unfold Engine.unfinished
        rw [finish]
      rw [← finish] at refuses
      rw [← unnoticed.fail, ← same]
      exact .unfinished atEnd refuses
  | proceeded current attempts =>
      rw [← unnoticed.attempt] at attempts
      rw [← unnoticed.adopt]
      exact .proceeded current attempts
  | yielded current attempts =>
      rw [← unnoticed.attempt] at attempts
      rw [← unnoticed.adopt]
      exact .yielded current attempts
  | asked current attempts =>
      rw [← unnoticed.attempt] at attempts
      rw [← unnoticed.enter, ← unnoticed.adopt]
      exact .asked current attempts
  | halted current attempts =>
      rw [← unnoticed.attempt] at attempts
      rw [← unnoticed.enter, ← unnoticed.adopt]
      exact .halted current attempts
  | failed current attempts =>
      rename_i token machine fault
      have same : (alter engine).failedAt run token fault = engine.failedAt run token fault := by
        unfold Engine.failedAt
        rw [finish]
      rw [← unnoticed.attempt] at attempts
      rw [← unnoticed.fail, ← unnoticed.adopt, ← same]
      exact .failed current attempts

theorem tick (unnoticed : Unnoticed alter) (engine : Engine Token State) :
    (alter engine).tick = (alter engine.tick.1, engine.tick.2) := by
  by_cases running : engine.status = .running
  · rcases Phase.status_eq_running_iff.mp running with ⟨run, phase⟩
    have phaseToo : (alter engine).phase = .running run := (unnoticed.phase_eq engine).trans phase
    exact (tick_ticked phaseToo).unique (unnoticed.ticked (tick_ticked phase))
  · have runningToo : (alter engine).status ≠ .running := by
      rw [unnoticed.status_eq]
      exact running
    rw [tick_of_not_running running, tick_of_not_running runningToo, unnoticed.status_eq]

theorem commitTo (unnoticed : Unnoticed alter) (engine : Engine Token State)
    (run : Run Token State) (request : Request) (entry : Entry) :
    (alter engine).commitTo run request entry =
      (alter (engine.commitTo run request entry).1, (engine.commitTo run request entry).2) := by
  have after : (alter engine).consoleAfter request = engine.consoleAfter request := by
    unfold Engine.consoleAfter
    rw [unnoticed.console_eq, unnoticed.language_eq]
  have refused (fault : Fault) :
      (alter engine).refusedAt run fault = engine.refusedAt run fault := by
    unfold Engine.refusedAt
    rw [unnoticed.language_eq]
  have committed (console : Console) : Engine.publish { alter engine with console } =
      alter (Engine.publish { engine with console }) := by
    rw [unnoticed.withConsole, unnoticed.publish]
  unfold Engine.commitTo
  simp only [after, committed]
  rw [unnoticed.language_eq]
  cases engine.language.receive entry run.state with
  | ok state => simp only [unnoticed.enter]
  | error fault => simp only [unnoticed.fail, refused]

theorem respondAt (unnoticed : Unnoticed alter) (engine : Engine Token State)
    (run : Run Token State) (prompt : Prompt) (key : Key) :
    (alter engine).respondAt run prompt key =
      (alter (engine.respondAt run prompt key).1, (engine.respondAt run prompt key).2) := by
  have edited (prompt : Prompt) (console : Console) :
      Engine.publish { alter engine with console, phase := .suspended run prompt } =
        alter (Engine.publish { engine with console, phase := .suspended run prompt }) := by
    rw [← unnoticed.publish]
    exact congrArg Engine.publish
      ((congrArg (Engine.withPhase · _) (unnoticed.withConsole engine console)).trans
        (unnoticed.withPhase _ _))
  unfold Engine.respondAt
  rw [unnoticed.console_eq]
  rcases prompt.press key engine.console with ⟨reaction, pressed, console⟩
  cases reaction with
  | ignored | edited => simp only [edited]
  | committed entry => exact unnoticed.commitTo engine run prompt.request entry

/-- A key does the same before the change and behind it, until the slice that may follow. -/
theorem respond (unnoticed : Unnoticed alter) (engine : Engine Token State) (key : Key) :
    (alter engine).respond key = (alter (engine.respond key).1, (engine.respond key).2) := by
  have understands (request : Request) :
      (alter engine).understands request key = engine.understands request key := by
    unfold Engine.understands
    rw [unnoticed.language_eq]
  unfold Engine.respond
  rw [unnoticed.cancelRequested_eq, unnoticed.status_eq, unnoticed.phase_eq]
  split
  · rw [unnoticed.cancel]
  · split
    · rename_i run prompt suspended
      rw [understands]
      split
      · exact unnoticed.respondAt engine run prompt key
      · rfl
    · rfl

end Unnoticed

end Engine

end Esoterica
