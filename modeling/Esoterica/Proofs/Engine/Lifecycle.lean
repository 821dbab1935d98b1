import Esoterica.Proofs.Engine.Cancellation

/-!
# The life of a run

The status of an engine follows a fixed diagram. Only the start of a program leads out of the
statuses without a run. A running program may suspend, complete or fail, and a suspended one goes on
when its answer is accepted and fails when it is refused; both can be cancelled. `Becomes` is this
diagram, with each arrow labelled by the act that belongs to it.

A failure is told once, right before the status that it leads to, and its message is the error that
the engine shows from then on.
-/

namespace Esoterica

/-- What an act makes of a status, and the message of the failure if the run fails by it. -/
inductive Status.Becomes {Token : Type} : Status → List (Act Token) → Option String → Status → Prop
    where
  | stays (status : Status) : Becomes status [] none status
  | started (status : Status) (source : String) : Becomes status [.started source] none .running
  | unreadable (status : Status) (source message : String) :
      Becomes status [.started source] (some message) .failed
  | proceeded (index : Nat) (token : Token) :
      Becomes .running [.executed index token (.ok .proceed)] none .running
  | yielded (index : Nat) (token : Token) :
      Becomes .running [.executed index token (.ok .yield)] none .running
  | asked (index : Nat) (token : Token) (request : Request) :
      Becomes .running [.executed index token (.ok (.ask request))] none (.suspended request)
  | halted (index : Nat) (token : Token) :
      Becomes .running [.executed index token (.ok .halt)] none .completed
  | failed (index : Nat) (token : Token) (fault : Fault) (message : String) :
      Becomes .running [.executed index token (.error fault)] (some message) .failed
  | finished : Becomes .running [.concluded (.ok ())] none .completed
  | unfinished (fault : Fault) (message : String) :
      Becomes .running [.concluded (.error fault)] (some message) .failed
  | accepted (request : Request) (answer : Answer) :
      Becomes (.suspended request) [.answered answer (.ok ())] none .running
  | refused (request : Request) (answer : Answer) (fault : Fault) (message : String) :
      Becomes (.suspended request) [.answered answer (.error fault)] (some message) .failed
  | cancelled {status : Status} (active : status.isActive = true) :
      Becomes status [.cancelled] none .cancelled

namespace Status.Becomes

variable {Token : Type} {before after : Status} {acts : List (Act Token)} {message? : Option String}

theorem of_nil (becomes : Becomes before ([] : List (Act Token)) message? after) :
    after = before ∧ message? = none := by
  cases becomes
  exact ⟨rfl, rfl⟩

theorem of_started {source : String}
    (becomes : Becomes before [(.started source : Act Token)] none after) : after = .running := by
  cases becomes
  rfl

/-- Nothing but a start happens to a run that has failed, and no run fails without a message. -/
theorem of_noStart (becomes : Becomes before acts message? after) (noStart : Act.NoStart acts) :
    acts = [] ∨ before ≠ .failed ∧ (message? = none → after ≠ .failed) := by
  cases becomes with
  | stays => exact Or.inl rfl
  | started status source | unreadable status source =>
      exact absurd (List.mem_singleton.mpr rfl) (noStart source)
  | cancelled active =>
      right
      constructor
      · rintro rfl
        cases active
      · simp
  | proceeded | yielded | asked | halted | failed | finished | unfinished | accepted | refused =>
      right
      simp

end Status.Becomes

namespace Event

/-- The messages of the failures among events. -/
def failures (events : List Event) : List String :=
  events.filterMap fun
    | failed message => some message
    | console _ | status _ => none

theorem failures_append (earlier later : List Event) :
    failures (earlier ++ later) = failures earlier ++ failures later :=
  List.filterMap_append

end Event

namespace Engine

variable {Token State : Type} {engine between after : Engine Token State}
  {acts : List (Act Token)}

/-- What is told of an act: changes of the console, then the failure, and last the new status. -/
def telling (changes : List Change) (message? : Option String) (before after : Status) :
    List Event :=
  changes.map .console ++ message?.toList.map .failed ++ announcement before after

/-- An engine becomes another by an act, as the diagram says, and shows the error that it tells. -/
def Turns (engine : Engine Token State) (acts : List (Act Token)) (after : Engine Token State) :
    Prop :=
  ∃ (message? : Option String) (changes : List Change),
    Status.Becomes engine.status acts message? after.status ∧
      (∀ message, message? = some message → after.error? = some message) ∧
      after.events.toList =
        engine.events.toList ++ telling changes message? engine.status after.status

/-- Only changes of the console were told, and the status is the same. -/
structure Shows (engine after : Engine Token State) : Prop where
  status_eq : after.status = engine.status
  told : ∃ changes : List Change,
    after.events.toList = engine.events.toList ++ changes.map .console

namespace Shows

theorem of_eq (sameStatus : after.status = engine.status)
    (sameEvents : after.events = engine.events) : engine.Shows after :=
  ⟨sameStatus, [], by simp [sameEvents]⟩

theorem publish (sameStatus : between.status = engine.status)
    (sameEvents : between.events = engine.events) : engine.Shows between.publish := by
  constructor
  · rw [status, publish_phase]
    exact sameStatus
  · refine ⟨between.console.changes.toList, ?_⟩
    rw [publish_eq]
    simp [emit, sameEvents]

theorem turns (shows : engine.Shows after)
    (becomes : Status.Becomes engine.status acts none engine.status) : engine.Turns acts after := by
  rcases shows with ⟨sameStatus, changes, told⟩
  refine ⟨none, changes, ?_, by simp, ?_⟩
  · rw [sameStatus]
    exact becomes
  · simp [told, sameStatus, telling, announcement]

theorem enter {phase : Phase Token State} (shows : engine.Shows between)
    (becomes : Status.Becomes engine.status acts none phase.status) :
    engine.Turns acts (between.enter phase) := by
  rcases shows with ⟨sameStatus, changes, told⟩
  refine ⟨none, changes, ?_, by simp, ?_⟩
  · rw [enter_status]
    exact becomes
  · rw [enter_status, enter_eq]
    simp [emit, told, sameStatus, telling]

theorem fail {failure : Failure} (shows : engine.Shows between)
    (becomes : Status.Becomes engine.status acts (some failure.message) .failed) :
    engine.Turns acts (between.fail failure) := by
  have dropped : between.Shows (between.updateConsole Console.dropEcho) := .publish rfl rfl
  rcases shows with ⟨sameStatus, changes, told⟩
  rcases dropped with ⟨sameStatusToo, more, toldToo⟩
  refine ⟨some failure.message, changes ++ more, ?_, ?_, ?_⟩
  · rw [fail_status]
    exact becomes
  · intro message isMessage
    simp [error?, Phase.failure?, isMessage]
  · have reported :
        ((between.updateConsole Console.dropEcho).report (.failed failure.message)).status =
          engine.status :=
      sameStatusToo.trans sameStatus
    rw [fail_status, Engine.fail, enter_eq, reported]
    simp [emit, report, toldToo, told, telling, Phase.status]

end Shows

theorem turns_start (engine : Engine Token State) (source : String) :
    engine.Turns [.started source] (engine.start source).1 := by
  have wiped : engine.Shows engine.wiped := .publish rfl rfl
  rw [start_eq]
  cases engine.language.read source with
  | ok program =>
      simp only
      exact wiped.enter (.started engine.status source)
  | error error =>
      simp only
      exact wiped.fail (.unreadable engine.status source _)

theorem turns_cancel (engine : Engine Token State) :
    engine.Turns (if engine.status.isActive then [.cancelled] else []) engine.cancel := by
  cases active : engine.status.isActive with
  | true =>
      rw [cancel_of_active active]
      apply Shows.enter
      · exact .publish rfl rfl
      · exact .cancelled active
  | false =>
      rw [cancel_of_inactive active]
      apply Shows.turns
      · exact .of_eq rfl rfl
      · exact .stays engine.status

section running

variable {run : Run Token State} {token : Token}

theorem status_of_running (running : engine.phase = .running run) : engine.status = .running := by
  rw [status, running]
  rfl

theorem turns_execute (running : engine.phase = .running run)
    (current : run.program.current? = some token) :
    engine.Turns [.executed run.program.counter token (engine.attempt run token).1]
      engine.tick.1 := by
  have isRunning := status_of_running running
  have adopted (machine : Machine Token State) : engine.Shows (engine.adopt machine) :=
    .publish isRunning.symm rfl
  have ticked := tick_ticked running
  generalize engine.tick = result at ticked ⊢
  cases ticked with
  | finished atEnd | unfinished atEnd => simp [atEnd] at current
  | proceeded fetched attempts =>
      cases fetched.symm.trans current
      apply (adopted _).turns
      rw [attempts, isRunning]
      exact .proceeded _ token
  | yielded fetched attempts =>
      cases fetched.symm.trans current
      apply (adopted _).turns
      rw [attempts, isRunning]
      exact .yielded _ token
  | asked fetched attempts =>
      cases fetched.symm.trans current
      apply (adopted _).enter
      rw [attempts, isRunning]
      exact .asked _ token _
  | halted fetched attempts =>
      cases fetched.symm.trans current
      apply (adopted _).enter
      rw [attempts, isRunning]
      exact .halted _ token
  | failed fetched attempts =>
      cases fetched.symm.trans current
      apply (adopted _).fail
      rw [attempts, isRunning]
      exact .failed _ token _ _

theorem turns_conclude (running : engine.phase = .running run)
    (atEnd : run.program.current? = none) :
    engine.Turns [.concluded (engine.language.finish run.state)] engine.tick.1 := by
  have isRunning := status_of_running running
  have ticked := tick_ticked running
  generalize engine.tick = result at ticked ⊢
  cases ticked with
  | proceeded current | yielded current | asked current | halted current | failed current =>
      simp [atEnd] at current
  | finished _ accepts =>
      apply Shows.enter (.of_eq rfl rfl)
      rw [accepts, isRunning]
      exact .finished
  | unfinished _ refuses =>
      apply Shows.fail (.of_eq rfl rfl)
      rw [refuses, isRunning]
      exact .unfinished _ _

end running

theorem turns_answer {run : Run Token State} {prompt : Prompt} {key : Key} {answer : Answer}
    (suspended : engine.phase = .suspended run prompt)
    (commits : engine.committed? key = some answer) :
    engine.Turns
      [.answered answer ((engine.language.receive answer.entry run.state).map fun _ => ())]
      (engine.respond key).1 := by
  have isSuspended : engine.status = .suspended prompt.request := by rw [status, suspended]; rfl
  have committed : engine.Shows
      (Engine.publish { engine with console := engine.consoleAfter prompt.request }) :=
    .publish rfl rfl
  rcases respond_of_commits suspended commits with
    ⟨state, receives, responds⟩ | ⟨fault, refuses, responds⟩
  · simp only [responds]
    apply committed.enter
    rw [receives, isSuspended]
    exact .accepted prompt.request answer
  · simp only [responds]
    apply committed.fail
    rw [refuses, isSuspended]
    exact .refused prompt.request answer fault _

/-- Whatever an engine does follows the diagram. -/
theorem Does.turns (does : engine.Does acts after) : engine.Turns acts after := by
  cases does with
  | start source => exact turns_start engine source
  | execute running unrequested current => exact turns_execute running current
  | conclude running unrequested atEnd => exact turns_conclude running atEnd
  | answer suspended commits => exact turns_answer suspended commits
  | edit suspended unrequested uncommitted =>
      apply Shows.turns
      · refine .publish ?_ rfl
        simp only [status, suspended, Phase.status, Prompt.press_request]
      · exact .stays engine.status
  | cancel => exact turns_cancel engine
  | countSlice | requestCancel =>
      apply Shows.turns
      · exact .of_eq rfl rfl
      · exact .stays engine.status
  | clearOutput =>
      apply Shows.turns
      · exact .publish rfl rfl
      · exact .stays engine.status

/-! ### Failures -/

theorem error?_of_status_ne (fine : engine.status ≠ .failed) : engine.error? = none := by
  unfold error? status at *
  cases phase : engine.phase with
  | failed failure =>
      rw [phase] at fine
      exact absurd rfl fine
  | idle | running | suspended | completed | cancelled => rfl

/-- Without a new act the error that is shown stays. -/
theorem Does.error?_eq_of_nil (does : engine.Does [] after) : after.error? = engine.error? := by
  cases active : engine.status.isActive with
  | false =>
      have kept := (does.of_inactive active (by simp [Act.NoStart])).2
      simp only [error?, kept]
  | true =>
      have fine : engine.status ≠ .failed := by
        intro failed
        rw [failed] at active
        cases active
      rcases does.turns with ⟨_, _, becomes, _⟩
      have fineToo : after.status ≠ .failed := by
        rw [becomes.of_nil.1]
        exact fine
      rw [error?_of_status_ne fine, error?_of_status_ne fineToo]

/-- The error that is shown is the one there was, or the message that an act adds. -/
theorem Does.error?_toList (does : engine.Does acts after) {message? : Option String}
    (becomes : Status.Becomes engine.status acts message? after.status)
    (shown : ∀ message, message? = some message → after.error? = some message)
    (noStart : Act.NoStart acts) :
    after.error?.toList = engine.error?.toList ++ message?.toList := by
  rcases becomes.of_noStart noStart with rfl | ⟨fine, fineToo⟩
  · rw [does.error?_eq_of_nil, becomes.of_nil.2]
    simp
  · rw [error?_of_status_ne fine]
    cases message? with
    | none => simp [error?_of_status_ne (fineToo rfl)]
    | some message => simp [shown message rfl]

theorem failures_telling (changes : List Change) (message? : Option String)
    (before after : Status) :
    Event.failures (telling changes message? before after) = message?.toList := by
  have consoleQuiet : Event.failures (changes.map .console) = [] := by
    simp [Event.failures]
  have statusQuiet : Event.failures (announcement before after) = [] := by
    unfold announcement
    split <;> rfl
  rw [telling, Event.failures_append, Event.failures_append, consoleQuiet, statusQuiet]
  cases message? with
  | none => rfl
  | some message => rfl

/-- Since its program was started, a run has told of one failure if it has failed, and of none
otherwise; the message is the error that the engine shows. -/
theorem Chronicle.failures_eq {before : Engine Token State} {source : String}
    (chronicle : (before.start source).1.Chronicle acts engine) (noStart : Act.NoStart acts) :
    ∃ told, engine.events.toList = before.events.toList ++ told ∧
      Event.failures told = engine.error?.toList := by
  induction chronicle with
  | nil =>
      rcases turns_start before source with ⟨message?, changes, becomes, shown, told⟩
      refine ⟨_, told, ?_⟩
      rw [failures_telling]
      cases message? with
      | some message => rw [shown message rfl]
      | none =>
          have fine : (before.start source).1.status ≠ .failed := by
            rw [becomes.of_started]
            simp
          rw [error?_of_status_ne fine]
  | snoc chronicle does ih =>
      rcases Act.noStart_append.mp noStart with ⟨noStart, noStartLater⟩
      rcases ih noStart with ⟨told, events, failures⟩
      rcases does.turns with ⟨message?, changes, becomes, shown, more⟩
      rw [events, List.append_assoc] at more
      refine ⟨_, more, ?_⟩
      rw [Event.failures_append, failures, failures_telling,
        does.error?_toList becomes shown noStartLater]

/-! ### Engines without a run -/

/-- Nothing but the start of a program has an effect on an engine without a run, except that a
request for cancellation is dropped. -/
structure Dormant (engine : Engine Token State) : Prop where
  slice_eq : engine.slice = withNext { engine with cancelRequested := false }
  blocks_iff : ∀ point,
    engine.Blocks point ↔ point = withNext { engine with cancelRequested := false }
  press_eq : ∀ key, engine.press key = withNext { engine with cancelRequested := false }
  cancel_eq : engine.cancel = { engine with cancelRequested := false }
  phase_eq : ∀ call after, engine.Makes call after → (∀ source, call ≠ .start source) →
    after.phase = engine.phase

theorem press_of_inactive (inactive : engine.status.isActive = false) (key : Key) :
    engine.press key = withNext { engine with cancelRequested := false } := by
  cases requested : engine.cancelRequested with
  | true => rw [press_of_requested requested, cancel_of_inactive inactive]
  | false =>
      have calm : { engine with cancelRequested := false } = engine := by rw [← requested]
      unfold press
      rw [requested, inactive, Bool.and_false, Bool.or_false, if_neg Bool.false_ne_true, calm]
      cases phase : engine.phase with
      | suspended run prompt =>
          rw [status, phase] at inactive
          cases inactive
      | idle | running | completed | failed | cancelled => rfl

theorem Chronicle.phase_eq_of_inactive {first : Engine Token State}
    (chronicle : first.Chronicle acts engine) (inactive : first.status.isActive = false)
    (noStart : Act.NoStart acts) : engine.phase = first.phase := by
  induction chronicle with
  | nil => rfl
  | @snoc acts more before after chronicle does ih =>
      rcases Act.noStart_append.mp noStart with ⟨noStart, noStartLater⟩
      have kept := ih noStart
      have inactiveToo : before.status.isActive = false := by
        rw [status, kept]
        exact inactive
      exact (does.of_inactive inactiveToo noStartLater).2.trans kept

theorem dormant_of_inactive (inactive : engine.status.isActive = false) : engine.Dormant := by
  have notRunning : engine.status ≠ .running := by
    intro running
    rw [running] at inactive
    cases inactive
  have cancel_eq := cancel_of_inactive inactive
  have slice_eq : engine.slice = withNext { engine with cancelRequested := false } := by
    cases requested : engine.cancelRequested with
    | true => rw [slice_of_requested requested, cancel_eq]
    | false =>
        rw [slice_of_not_running requested notRunning]
        rw [← requested]
  refine ⟨slice_eq, ?_, press_of_inactive inactive, cancel_eq, ?_⟩
  · intro point
    have final : engine.slice.2 ≠ .slice := by
      rw [slice_eq]
      exact Status.next_ne_slice_iff.mpr notRunning
    rw [Engine.blocks_iff, LeadsTo, ← slice_eq]
    simp [final, eq_comm]
  · intro call after makes noStart
    rcases makes.exists_chronicle with ⟨acts, chronicle, named⟩
    apply chronicle.phase_eq_of_inactive inactive
    intro source mem
    exact noStart source (named source mem)

/--
A sequence of calls is a row of acts, and each call starts no program but the one it names. Each act
follows the diagram. It tells of a failure exactly if the run fails by it; then the engine shows
that error and, unless it had failed before, tells at once of its new status. To an engine without a
run, calls for slices, keys and cancellations do nothing, except that a request for cancellation is
dropped, and no call but a start changes its phase. From one start to the next one failure is told
if the run has failed, with the error that is shown, and none otherwise.
-/
theorem lifecycle_documented (Token State : Type) :
    (∀ (language : Language Token State) options random observer clock,
        (create language options random observer clock).status = .idle) ∧
      (∀ (first engine : Engine Token State) calls answers,
        first.History calls answers engine →
          ∃ acts, first.Chronicle acts engine ∧
            ∀ source, .started source ∈ acts → .start source ∈ calls) ∧
      (∀ (engine after : Engine Token State) call, engine.Makes call after →
        ∃ acts, engine.Chronicle acts after ∧
          ∀ source, .started source ∈ acts → call = .start source) ∧
      (∀ (engine after : Engine Token State) acts, engine.Does acts after →
        engine.Turns acts after) ∧
      (∀ engine : Engine Token State, engine.status.isActive = false → engine.Dormant) ∧
      ∀ (before engine : Engine Token State) source acts,
        (before.start source).1.Chronicle acts engine → Act.NoStart acts →
          ∃ told, engine.events.toList = before.events.toList ++ told ∧
            Event.failures told = engine.error?.toList := by
  refine ⟨fun _ _ _ _ _ => rfl, ?_, ?_, ?_, ?_, ?_⟩
  · intro first engine calls answers history
    exact history.exists_chronicle
  · intro engine after call makes
    exact makes.exists_chronicle
  · intro engine after acts does
    exact does.turns
  · intro engine inactive
    exact dormant_of_inactive inactive
  · intro before engine source acts chronicle noStart
    exact chronicle.failures_eq noStart

/-- A game fails at its second move. Then a source that is no game is refused, which tells of
another failure but of no new status, and leaves the engine without a run. -/
theorem lifecycle_documented_of_two_failures :
    let fresh := create Chess.language {} .zeros {} Clock.stopped
    let broken := (fresh.start "e4 Kxa8 h8 #").1.slice.1
    let refused := (broken.start "e9").1
    broken.status = .failed ∧ refused.status = .failed ∧
      broken.Turns [.started "e9"] refused ∧ refused.Dormant ∧
      ∃ told, refused.events.toList = broken.events.toList ++ told ∧
        Event.failures told = ["Invalid move at character 1 (Parsing)\n\"e9\""] := by
  intro fresh broken refused
  have brokenFailed : broken.status = .failed := by decide +kernel
  have refusedFailed : refused.status = .failed := by decide +kernel
  have shown : refused.error? = some "Invalid move at character 1 (Parsing)\n\"e9\"" := by
    decide +kernel
  have does : broken.Does [.started "e9"] refused := .start "e9"
  have chronicle : (broken.start "e9").1.Chronicle [] refused := .nil
  clear_value refused broken
  rcases lifecycle_documented Chess.Token TapeState with ⟨_, _, _, turns, dormant, failures⟩
  refine ⟨brokenFailed, refusedFailed, turns broken refused _ does, ?_, ?_⟩
  · apply dormant
    rw [refusedFailed]
    rfl
  · rcases failures broken refused "e9" [] chronicle (by simp [Act.NoStart]) with
      ⟨told, events, messages⟩
    refine ⟨told, events, ?_⟩
    rw [messages, shown]
    rfl

end Engine

end Esoterica
