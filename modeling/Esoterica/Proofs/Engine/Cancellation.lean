import Esoterica.Proofs.Engine.Chronicle
import Esoterica.Proofs.Engine.Replica

/-!
# Cancellation is prompt and complete

A request for cancellation is a flag. Once it is up, the next call that would carry on the run
cancels it and does nothing else. The flag may also go up in the middle of a call, when the observer
is told of what a token or an answer has done: then nothing more happens to that run, unless it is
over already.
-/

namespace Esoterica

namespace Act

/-- A token was executed or an answer was committed. -/
def movesOn {Token : Type} : Act Token → Bool
  | executed _ _ _ | answered _ _ => true
  | started _ | concluded _ | cancelled => false

end Act

namespace Engine

variable {Token State : Type} {engine after : Engine Token State}

/-! ### Carrying out a cancellation -/

/-- The events that tell of a cancellation. -/
def cancellation (engine : Engine Token State) : List Event :=
  if engine.status.isActive then
    (if engine.console.echo.isEmpty then [] else [.console (.echoed "")]) ++ [.status .cancelled]
  else []

/--
The second engine is the first one after a cancellation. The request is done with; there is another
one only if the observer asks for it when it is told of this cancellation.
-/
structure Cancels (engine after : Engine Token State) : Prop where
  statistics_eq : after.statistics = engine.statistics
  output_eq : after.output = engine.output
  events_eq : after.events.toList = engine.events.toList ++ engine.cancellation
  cancelRequested_eq :
    after.cancelRequested = engine.observer.asksAmong engine.memory engine.cancellation
  of_active : engine.status.isActive = true →
    after.status = .cancelled ∧ after.phase.run? = none ∧ after.console.echo = ""
  of_inactive : engine.status.isActive = false → after = { engine with cancelRequested := false }

theorem dropEcho_changes {console : Console} (published : console.changes = #[]) :
    console.dropEcho.changes.toList.map Event.console =
      if console.echo.isEmpty then [] else [.console (.echoed "")] := by
  simp only [Console.dropEcho]
  split
  · simp [published]
  · simp [Console.setEcho, published]

/-- The cancellation of a run is told by its events and by nothing else. -/
theorem cancel_eq_emit (active : engine.status.isActive = true)
    (published : engine.console.changes = #[]) :
    engine.cancel =
      emit
        { engine with
          cancelRequested := false
          console := { engine.console.dropEcho with changes := #[] }
          phase := .cancelled }
        engine.cancellation := by
  have ends : engine.phase.status ≠ .cancelled := by
    intro ended
    rw [status, ended] at active
    cases active
  simp only [cancel_of_active active, enter_eq, publish_eq, cancellation, active, if_true,
    dropEcho_changes published, announcement, Phase.status]
  simp [emit, Observer.asksAmong_append, status, ends]

theorem cancel_cancels (published : engine.console.changes = #[]) :
    engine.Cancels engine.cancel := by
  cases active : engine.status.isActive with
  | true =>
      rw [cancel_eq_emit active published]
      refine ⟨rfl, ?_, ?_, ?_, ?_, ?_⟩
      · exact Console.dropEcho_output engine.console
      · simp [emit]
      · simp [emit]
      · intro _
        exact ⟨rfl, rfl, Console.dropEcho_echo engine.console⟩
      · simp [active]
  | false =>
      rw [cancel_of_inactive active]
      have quiet : engine.cancellation = [] := by simp [cancellation, active]
      refine ⟨rfl, rfl, ?_, ?_, ?_, fun _ => rfl⟩
      · simp [quiet]
      · simp [quiet, Observer.asksAmong]
      · simp [active]

/-! ### What is left to be done -/

theorem committed_of_requested (requested : engine.cancelRequested = true) (key : Key) :
    engine.committed? key = none := by
  simp [committed?, requested]

theorem publish_requested (requested : engine.cancelRequested = true) :
    engine.publish.cancelRequested = true := by
  simp [publish_eq, emit, requested]

/-- To an engine without a run nothing is done but to start one. -/
theorem Does.of_inactive {acts : List (Act Token)} (does : engine.Does acts after)
    (inactive : engine.status.isActive = false) (noStart : Act.NoStart acts) :
    acts = [] ∧ after.phase = engine.phase := by
  cases does with
  | start source => exact absurd (List.mem_singleton.mpr rfl) (noStart source)
  | execute running | conclude running =>
      simp [status, running, Phase.status, Status.isActive] at inactive
  | answer suspended | edit suspended =>
      simp [status, suspended, Phase.status, Status.isActive] at inactive
  | cancel => simp [inactive, cancel_phase]
  | countSlice | requestCancel => exact ⟨rfl, rfl⟩
  | clearOutput => exact ⟨rfl, clearOutput_phase engine⟩

/-- While a cancellation is asked for, nothing is done to the run but to carry it out. -/
theorem Does.of_requested {acts : List (Act Token)} (does : engine.Does acts after)
    (active : engine.status.isActive = true) (requested : engine.cancelRequested = true)
    (noStart : Act.NoStart acts) :
    acts = [] ∧ after.cancelRequested = true ∧ after.phase = engine.phase ∨
      acts = [.cancelled] ∧ after.phase = .cancelled := by
  cases does with
  | start source => exact absurd (List.mem_singleton.mpr rfl) (noStart source)
  | execute _ unrequested | conclude _ unrequested | edit _ unrequested =>
      simp [requested] at unrequested
  | answer _ commits => simp [committed_of_requested requested] at commits
  | cancel =>
      right
      simp [active, cancel_phase]
  | countSlice =>
      left
      exact ⟨rfl, requested, rfl⟩
  | requestCancel =>
      left
      exact ⟨rfl, rfl, rfl⟩
  | clearOutput =>
      left
      exact ⟨rfl, publish_requested requested, clearOutput_phase engine⟩

/--
What has become of a run when a cancellation was asked for at an earlier moment: it waits to be
cancelled, it was cancelled, or it was over already at that moment.
-/
inductive Stopped (moment : Engine Token State) :
    List (Act Token) → Engine Token State → Prop where
  | waiting {engine : Engine Token State} (active : moment.status.isActive = true)
      (requested : engine.cancelRequested = true) (phase : engine.phase = moment.phase) :
      Stopped moment [] engine
  | cancelled {engine : Engine Token State} (active : moment.status.isActive = true)
      (phase : engine.phase = .cancelled) : Stopped moment [.cancelled] engine
  | ended {engine : Engine Token State} (inactive : moment.status.isActive = false)
      (phase : engine.phase = moment.phase) : Stopped moment [] engine

theorem Stopped.does {moment : Engine Token State} {later more : List (Act Token)}
    (stopped : Stopped moment later engine) (does : engine.Does more after)
    (noStart : Act.NoStart more) : Stopped moment (later ++ more) after := by
  cases stopped with
  | waiting active requested phase =>
      have activeToo : engine.status.isActive = true := by rw [status, phase]; exact active
      rcases does.of_requested activeToo requested noStart with
        ⟨rfl, requestedToo, kept⟩ | ⟨rfl, ends⟩
      · exact .waiting active requestedToo (kept.trans phase)
      · exact .cancelled active ends
  | cancelled active phase =>
      have inactive : engine.status.isActive = false := by rw [status, phase]; rfl
      rcases does.of_inactive inactive noStart with ⟨rfl, kept⟩
      exact .cancelled active (kept.trans phase)
  | ended inactive phase =>
      have inactiveToo : engine.status.isActive = false := by rw [status, phase]; exact inactive
      rcases does.of_inactive inactiveToo noStart with ⟨rfl, kept⟩
      exact .ended inactive (kept.trans phase)

theorem Chronicle.stopped {moment : Engine Token State} {later : List (Act Token)}
    (chronicle : moment.Chronicle later engine) (requested : moment.cancelRequested = true)
    (noStart : Act.NoStart later) : Stopped moment later engine := by
  induction chronicle with
  | nil =>
      cases active : moment.status.isActive with
      | true => exact .waiting active requested rfl
      | false => exact .ended active rfl
  | snoc chronicle does ih =>
      rcases Act.noStart_append.mp noStart with ⟨noStart, noStartLater⟩
      exact (ih noStart).does does noStartLater

/--
A token or an answer moves a run on only while no cancellation is asked for, and leaves it active,
completed or failed.
-/
theorem Does.of_movesOn {acts : List (Act Token)} (does : engine.Does acts after)
    (movesOn : acts.any Act.movesOn = true) :
    engine.cancelRequested = false ∧
      (after.status.isActive = true ∨ after.status = .completed ∨ after.status = .failed) := by
  cases does with
  | start | conclude | edit | countSlice | requestCancel | clearOutput => cases movesOn
  | cancel =>
      split at movesOn
      · cases movesOn
      · cases movesOn
  | execute running unrequested current =>
      refine ⟨unrequested, ?_⟩
      have ticked := tick_ticked running
      generalize engine.tick = result at ticked ⊢
      cases ticked with
      | finished | unfinished | halted | failed => simp [Phase.status]
      | proceeded | yielded | asked => simp [status, Phase.status, Status.isActive]
  | answer suspended commits =>
      constructor
      · cases requested : engine.cancelRequested with
        | false => rfl
        | true => simp [committed_of_requested requested] at commits
      · rcases respond_of_commits suspended commits with ⟨_, _, responds⟩ | ⟨_, _, responds⟩
        · simp [responds, Phase.status, Status.isActive]
        · simp [responds]

theorem Stopped.instructions_eq {moment : Engine Token State} {later : List (Act Token)}
    (stopped : Stopped moment later engine) (chronicle : moment.Chronicle later engine)
    (noStart : Act.NoStart later) :
    engine.statistics.instructions = moment.statistics.instructions := by
  rw [chronicle.instructions_eq noStart]
  cases stopped with
  | waiting | cancelled | ended => rfl

/-! ### Calls while a cancellation is asked for -/

theorem press_of_requested (requested : engine.cancelRequested = true) (key : Key) :
    engine.press key = engine.cancel.withNext := by
  rw [press_eq, respond_of_requested requested]
  rfl

theorem blocks_iff_of_requested (requested : engine.cancelRequested = true)
    (point : Engine Token State × Next) :
    engine.Blocks point ↔ point = engine.cancel.withNext := by
  have blocks : engine.Blocks engine.cancel.withNext := by
    apply blocks_iff.mpr
    left
    rw [slice_of_requested requested]
    exact ⟨Status.next_ne_slice_iff.mpr engine.cancel_status_ne_running, rfl⟩
  constructor
  · intro blocksToo
    exact blocksToo.unique blocks
  · rintro rfl
    exact blocks

/-- A slice whose first token raises the request ends there, or with the cancellation. -/
theorem ticks_of_raised (unrequested : engine.cancelRequested = false)
    (raised : engine.tick.1.cancelRequested = true) (remaining : Nat) :
    (engine.ticks remaining).1 = engine.tick.1 ∨
      (engine.ticks remaining).1 = engine.tick.1.cancel := by
  rcases ticks : engine.tick with ⟨ticked, next?⟩
  rw [ticks] at raised
  cases next? with
  | some next =>
      left
      rw [ticks_of_stop unrequested ticks]
  | none =>
      rcases ticks_of_proceed unrequested ticks remaining with cut | ⟨fewer, _, _, continues⟩
      · left
        rw [cut]
      · right
        rw [continues, ticks_of_requested raised]
        rfl

theorem press_of_raised {key : Key} (raised : (engine.respond key).1.cancelRequested = true) :
    (engine.press key).1 = (engine.respond key).1 ∨
      (engine.press key).1 = (engine.respond key).1.cancel := by
  rw [press_eq, follow]
  split
  · right
    rw [slice_of_requested raised]
    rfl
  · left
    rfl

theorem Mirrored.does {acts : List (Act Token)} (mirrored : engine.Mirrored)
    (does : engine.Does acts after) : after.Mirrored := by
  cases does with
  | start source => exact mirrored.start source
  | execute running unrequested | conclude running unrequested =>
      exact keptBySlices_mirrored.ticked _ _ _ running unrequested (tick_ticked running) mirrored
  | answer => exact mirrored.responded (respond_responded engine _)
  | edit suspended _ uncommitted => exact mirrored.responded (.edited suspended uncommitted)
  | cancel => exact mirrored.cancel
  | countSlice | requestCancel =>
      exact ⟨mirrored.tame, mirrored.published, mirrored.lawful, mirrored.shows⟩
  | clearOutput => exact mirrored.updateConsole (Console.records_clear engine.console)

theorem Chronicle.mirrored {first : Engine Token State} {acts : List (Act Token)}
    (chronicle : first.Chronicle acts engine) (mirrored : first.Mirrored) : engine.Mirrored := by
  induction chronicle with
  | nil => exact mirrored
  | snoc chronicle does ih => exact ih.does does

/--
Of a fresh engine and all that can be done to it, one act after the other: if a cancellation is
asked for, a slice, all further slices and any key cancel the run, or do nothing if there is none,
and no answer is committed. If the request is made while the host is told of an executed token or a
committed answer, the slice or the key press ends there or with the cancellation, and no token of
that run is ever executed again: the run waits to be cancelled, is cancelled, or was completed or
failed by that very token or answer.
-/
theorem cancellation_prompt_complete (dialect : Dialect) (options : Options)
    (random : RandomStream) (observer : Observer) (clock : Clock) :
    let fresh := create dialect.language options random observer clock
    (∀ calls answers engine, fresh.History calls answers engine →
        ∃ acts, fresh.Chronicle acts engine) ∧
      (∀ acts engine, fresh.Chronicle acts engine → engine.cancelRequested = true →
        engine.slice = engine.cancel.withNext ∧
          (∀ remaining, engine.ticks remaining = engine.cancel.withNext) ∧
          (∀ point, engine.Blocks point ↔ point = engine.cancel.withNext) ∧
          (∀ key, engine.committed? key = none ∧ engine.press key = engine.cancel.withNext) ∧
          engine.Cancels engine.cancel) ∧
      (∀ acts engine, fresh.Chronicle acts engine → engine.cancelRequested = false →
        (engine.tick.1.cancelRequested = true → ∀ remaining,
            (engine.ticks remaining).1 = engine.tick.1 ∨
              (engine.ticks remaining).1 = engine.tick.1.cancel) ∧
          ∀ key, (engine.respond key).1.cancelRequested = true →
            (engine.press key).1 = (engine.respond key).1 ∨
              (engine.press key).1 = (engine.respond key).1.cancel) ∧
      ∀ acts before moved moment, fresh.Chronicle acts before → before.Does moved moment →
        moved.any Act.movesOn = true → moment.cancelRequested = true →
        before.cancelRequested = false ∧
          (moment.status.isActive = true ∨ moment.status = .completed ∨
            moment.status = .failed) ∧
          ∀ later engine, moment.Chronicle later engine → Act.NoStart later →
            Stopped moment later engine ∧
              engine.statistics.instructions = moment.statistics.instructions := by
  intro fresh
  refine ⟨?_, ?_, ?_, ?_⟩
  · intro calls answers engine history
    rcases history.exists_chronicle with ⟨acts, chronicle, _⟩
    exact ⟨acts, chronicle⟩
  · intro acts engine chronicle requested
    have mirrored :=
      chronicle.mirrored (mirrored_create dialect options random observer clock)
    refine ⟨slice_of_requested requested, ticks_of_requested requested,
      blocks_iff_of_requested requested, ?_, cancel_cancels mirrored.published⟩
    intro key
    exact ⟨committed_of_requested requested key, press_of_requested requested key⟩
  · intro acts engine _ unrequested
    exact ⟨ticks_of_raised unrequested, fun _ => press_of_raised⟩
  · intro acts before moved moment _ does movesOn requested
    rcases does.of_movesOn movesOn with ⟨unrequested, ends⟩
    refine ⟨unrequested, ends, ?_⟩
    intro later engine chronicle noStart
    have stopped := chronicle.stopped requested noStart
    exact ⟨stopped, stopped.instructions_eq chronicle noStart⟩

theorem exists_does_tick (running : engine.status = .running)
    (unrequested : engine.cancelRequested = false)
    (fetches : (engine.phase.run?.bind (·.program.current?)).isSome = true) :
    ∃ index token result, engine.Does [.executed index token result] engine.tick.1 := by
  rcases Phase.status_eq_running_iff.mp running with ⟨run, phase⟩
  rw [phase] at fetches
  rcases Option.isSome_iff_exists.mp fetches with ⟨token, current⟩
  exact ⟨_, token, _, .execute phase unrequested current⟩

/-- The observer asks when the second token has written; the third is not executed any more. -/
theorem cancellation_prompt_complete_of_text :
    let observer : Observer := { cancelsAt := fun _ event => event == .console (.appended "\x01") }
    let fresh := create Dialect.brainfuck.language {} .zeros observer Clock.stopped
    let began := (fresh.start "+.+.").1.countSlice
    let before := began.tick.1
    let moment := before.tick.1
    moment.cancelRequested = true ∧ moment.status = .running ∧ moment.output = "\x01" ∧
      (∃ acts, fresh.Chronicle acts before) ∧
      (∃ index token result, before.Does [.executed index token result] moment) ∧
      ∀ later engine, moment.Chronicle later engine → Act.NoStart later →
        engine.statistics.instructions = 2 := by
  intro observer fresh began before moment
  have requested : moment.cancelRequested = true := by decide +kernel
  have counted : moment.statistics.instructions = 2 := by decide +kernel
  obtain ⟨_, _, _, increments⟩ :
      ∃ index token result, began.Does [.executed index token result] before :=
    exists_does_tick (by decide +kernel) (by decide +kernel) (by decide +kernel)
  obtain ⟨index, token, result, writes⟩ :
      ∃ index token result, before.Does [.executed index token result] moment :=
    exists_does_tick (by decide +kernel) (by decide +kernel) (by decide +kernel)
  have chronicle : fresh.Chronicle _ before :=
    ((Chronicle.nil.snoc (.start "+.+.")).snoc .countSlice).snoc increments
  refine ⟨requested, by decide +kernel, by decide +kernel, ⟨_, chronicle⟩,
    ⟨index, token, result, writes⟩, ?_⟩
  have complete :=
    (cancellation_prompt_complete .brainfuck {} .zeros observer Clock.stopped).2.2.2
  have stops := (complete _ before _ moment chronicle writes rfl requested).2.2
  intro later engine continues noStart
  exact (stops later engine continues noStart).2.trans counted

end Engine

end Esoterica
