import Esoterica.Proofs.Dialect
import Esoterica.Proofs.Engine.Settings
import Esoterica.Proofs.Engine.Transcript

/-!
# The work of a call

Programs may loop for ever, so what bounds the work of a call is the slice alone. A slice executes
at most as many tokens as the step budget says, and at least one is allowed. It goes on behind a
token only if its time is not used up there, so where time slices have no length it ends behind the
first token. Only a slice of a running engine is counted as one, and no key leads to more than one
slice.

What is counted is what happened: `Works` ties the statistics of an engine to a chronicle of the
tokens that were executed.
-/

namespace Esoterica

/-- What a call returns tells the status: whether the run goes on, waits for a key or is over. -/
structure Next.Tells (next : Next) (status : Status) : Prop where
  slice_iff : next = .slice ↔ status = .running
  key_iff : ∀ request, next = .key request ↔ status = .suspended request
  done_iff : ∀ final, next = .done final ↔ status = final ∧ final.isActive = false

theorem Status.tells_next (status : Status) : status.next.Tells status := by
  constructor
  · cases status <;> simp [next]
  · intro request
    cases status <;> simp [next]
  · intro final
    cases status <;> cases final <;> simp [next, isActive]

namespace Engine

variable {Token State : Type} {engine between after : Engine Token State}

/-! ### Executed tokens and slices -/

/-- Between two engines, so many tokens were executed and so many slices counted. -/
structure Works (engine after : Engine Token State) (executed slices : Nat) : Prop where
  executes : ∃ acts, engine.Chronicle acts after ∧ Act.NoStart acts ∧
    acts.countP Act.isExecuted = executed
  instructions_eq : after.statistics.instructions = engine.statistics.instructions + executed
  slices_eq : after.statistics.slices = engine.statistics.slices + slices

namespace Works

theorem of_does {acts : List (Act Token)} {slices : Nat} (does : engine.Does acts after)
    (noStart : Act.NoStart acts)
    (slices_eq : after.statistics.slices = engine.statistics.slices + slices) :
    engine.Works after (acts.countP Act.isExecuted) slices :=
  ⟨⟨acts, does.chronicle, noStart, rfl⟩, does.instructions_eq noStart, slices_eq⟩

theorem trans {executed slices executedLater slicesLater : Nat}
    (earlier : engine.Works between executed slices)
    (later : between.Works after executedLater slicesLater) :
    engine.Works after (executed + executedLater) (slices + slicesLater) := by
  rcases earlier.executes with ⟨acts, chronicle, noStart, count⟩
  rcases later.executes with ⟨more, chronicleLater, noStartLater, countLater⟩
  refine ⟨⟨acts ++ more, chronicle.trans chronicleLater, ?_, ?_⟩, ?_, ?_⟩
  · exact Act.noStart_append.mpr ⟨noStart, noStartLater⟩
  · rw [List.countP_append, count, countLater]
  · rw [later.instructions_eq, earlier.instructions_eq, Nat.add_assoc]
  · rw [later.slices_eq, earlier.slices_eq, Nat.add_assoc]

/-- What leaves the statistics as they were has executed nothing. -/
theorem of_carries (carries : engine.Carries after)
    (sameStatistics : after.statistics = engine.statistics) : engine.Works after 0 0 := by
  rcases carries with ⟨acts, chronicle, noStart⟩
  have counted := chronicle.instructions_eq noStart
  rw [sameStatistics] at counted
  exact ⟨⟨acts, chronicle, noStart, by omega⟩, by simp [sameStatistics], by simp [sameStatistics]⟩

theorem refl (engine : Engine Token State) : engine.Works engine 0 0 :=
  of_carries (.refl engine) rfl

theorem cancel (engine : Engine Token State) : engine.Works engine.cancel 0 0 :=
  of_carries (Carries.refl engine).cancel (cancel_statistics engine)

theorem countSlice (engine : Engine Token State) : engine.Works engine.countSlice 0 1 :=
  of_does .countSlice (by simp [Act.NoStart]) rfl

theorem executed_unique {executed slices executedToo slicesToo : Nat}
    (works : engine.Works after executed slices)
    (worksToo : engine.Works after executedToo slicesToo) : executed = executedToo := by
  have same := works.instructions_eq.symm.trans worksToo.instructions_eq
  omega

end Works

theorem Ticked.slices_eq {run : Run Token State} {result : Engine Token State × Option Next}
    (ticked : Ticked engine run result) :
    result.1.statistics.slices = engine.statistics.slices := by
  cases ticked <;> simp [adopt]

/-- A tick executes the next token, if the program has one left. -/
theorem tick_works {run : Run Token State} (running : engine.phase = .running run)
    (unrequested : engine.cancelRequested = false) :
    engine.Works engine.tick.1 (if run.program.current?.isSome then 1 else 0) 0 := by
  have sameSlices := (tick_ticked running).slices_eq
  cases current : run.program.current? with
  | none =>
      have does := Does.conclude running unrequested current
      exact .of_does does (by simp [Act.NoStart]) sameSlices
  | some token =>
      have does := Does.execute running unrequested current
      exact .of_does does (by simp [Act.NoStart]) sameSlices

/-- The time of the slice is not used up before the last one of the tokens it executes. -/
def InTime (engine : Engine Token State) (executed : Nat) : Prop :=
  ∀ earlier, 0 < earlier → earlier < executed →
    engine.clock (engine.statistics.instructions + earlier) < engine.options.timeSlice

theorem inTime_of_le_one {executed : Nat} (single : executed ≤ 1) : engine.InTime executed := by
  intro earlier positive less
  omega

theorem InTime.le_one {executed : Nat} (inTime : engine.InTime executed)
    (timeless : engine.options.timeSlice = 0) : executed ≤ 1 := by
  by_cases more : 1 < executed
  · have early := inTime 1 Nat.one_pos more
    omega
  · omega

theorem InTime.of_tick {executed executedLater : Nat} (kin : engine.Kin between)
    (works : engine.Works between executed 0) (single : executed ≤ 1)
    (inTime : between.clock between.statistics.instructions < between.options.timeSlice)
    (inTimeLater : between.InTime executedLater) : engine.InTime (executed + executedLater) := by
  have sameOptions : between.options = engine.options := congrArg (·.2.1) kin.settings_eq
  have sameClock : between.clock = engine.clock := congrArg (·.2.2.2) kin.settings_eq
  have counted := works.instructions_eq
  intro earlier positive less
  by_cases first : earlier = executed
  · rwa [first, ← counted, ← sameOptions, ← sameClock]
  · have later := inTimeLater (earlier - executed) (by omega) (by omega)
    rw [counted, sameOptions, sameClock] at later
    have same : engine.statistics.instructions + executed + (earlier - executed) =
        engine.statistics.instructions + earlier := by omega
    rwa [same] at later

/-- Tokens are executed one after the other, no more than are allowed and only in time. -/
theorem ticks_works (engine : Engine Token State) (remaining : Nat) :
    ∃ executed ≤ remaining + 1, engine.Works (engine.ticks remaining).1 executed 0 ∧
      engine.InTime executed := by
  induction remaining using Nat.strongRecOn generalizing engine with
  | ind remaining ih =>
      cases requested : engine.cancelRequested with
      | true =>
          rw [ticks_of_requested requested]
          exact ⟨0, Nat.zero_le _, .cancel engine, inTime_of_le_one (Nat.zero_le 1)⟩
      | false =>
          by_cases running : engine.status = .running
          · rcases Phase.status_eq_running_iff.mp running with ⟨run, phase⟩
            have works := tick_works phase requested
            have kin : engine.Kin engine.tick.1 := (Kin.refl engine).ticked (tick_ticked phase)
            have single : (if run.program.current?.isSome then 1 else 0) ≤ 1 := by
              split <;> simp
            rcases ticks : engine.tick with ⟨ticked, next?⟩
            rw [ticks] at works kin
            cases next? with
            | some next =>
                rw [ticks_of_stop requested ticks]
                exact ⟨_, by omega, works, inTime_of_le_one single⟩
            | none =>
                rcases ticks_of_proceed requested ticks remaining with
                  cut | ⟨fewer, less, inTime, continues⟩
                · rw [cut]
                  exact ⟨_, by omega, works, inTime_of_le_one single⟩
                · rw [continues]
                  rcases ih fewer less ticked with ⟨executed, bounded, worksLater, inTimeLater⟩
                  exact ⟨_, by omega, works.trans worksLater,
                    .of_tick kin works single inTime inTimeLater⟩
          · rw [ticks_of_stop requested (tick_of_not_running running)]
            exact ⟨0, Nat.zero_le _, .refl engine, inTime_of_le_one (Nat.zero_le 1)⟩

/-- Where time slices have no length, the slice ends with its first token. -/
theorem ticks_of_timeless {run : Run Token State} (running : engine.phase = .running run)
    (unrequested : engine.cancelRequested = false) (timeless : engine.options.timeSlice = 0)
    (remaining : Nat) : (engine.ticks remaining).1 = engine.tick.1 := by
  have kin : engine.Kin engine.tick.1 := (Kin.refl engine).ticked (tick_ticked running)
  have sameOptions : engine.tick.1.options = engine.options := congrArg (·.2.1) kin.settings_eq
  rcases ticks : engine.tick with ⟨ticked, next?⟩
  rw [ticks] at sameOptions
  cases next? with
  | some next => rw [ticks_of_stop unrequested ticks]
  | none =>
      rcases ticks_of_proceed unrequested ticks remaining with cut | ⟨fewer, _, inTime, _⟩
      · rw [cut]
      · rw [sameOptions, timeless] at inTime
        exact absurd inTime (Nat.not_lt_zero _)

/-- A slice without time executes the next token, if there is one, and no other. -/
theorem slice_works_of_timeless {run : Run Token State} (running : engine.phase = .running run)
    (unrequested : engine.cancelRequested = false) (timeless : engine.options.timeSlice = 0) :
    engine.Works engine.slice.1 (if run.program.current?.isSome then 1 else 0) 1 := by
  have isRunning : engine.status = .running := Phase.status_eq_running_iff.mpr ⟨run, running⟩
  have counted : engine.countSlice.phase = .running run := running
  rw [slice_of_running unrequested isRunning, ticks_of_timeless counted unrequested timeless]
  have works := (Works.countSlice engine).trans (tick_works counted unrequested)
  rwa [Nat.zero_add] at works

/--
A slice of a running engine is counted, and executes at most as many tokens as its budget and only
in time; if time slices have no length, the next token, if there is one, and no other.
-/
theorem slice_works (running : engine.status = .running)
    (unrequested : engine.cancelRequested = false) :
    ∃ executed ≤ max 1 engine.options.stepBudget, engine.Works engine.slice.1 executed 1 ∧
      engine.InTime executed ∧
      (engine.options.timeSlice = 0 → ∀ run, engine.phase = .running run →
        executed = if run.program.current?.isSome then 1 else 0) := by
  rcases ticks_works engine.countSlice (engine.options.stepBudget - 1) with
    ⟨executed, bounded, works, inTime⟩
  have counted : engine.Works engine.slice.1 executed 1 := by
    rw [slice_of_running unrequested running, ← Nat.zero_add executed]
    exact (Works.countSlice engine).trans works
  refine ⟨executed, by omega, counted, inTime, ?_⟩
  intro timeless run phase
  exact counted.executed_unique (slice_works_of_timeless phase unrequested timeless)

/-- Every other call for a slice does no work. -/
theorem slice_works_of_not_running
    (stands : engine.status ≠ .running ∨ engine.cancelRequested = true) :
    engine.Works engine.slice.1 0 0 := by
  cases requested : engine.cancelRequested with
  | true =>
      rw [slice_of_requested requested]
      exact .cancel engine
  | false =>
      rw [slice_of_not_running requested (stands.resolve_right (by simp [requested]))]
      exact .refl engine

theorem Responded.statistics_eq {key : Key} {response : Engine Token State × Bool}
    (responded : Responded engine key response) :
    response.1.statistics = engine.statistics := by
  cases responded <;> simp

/-- A key does no work itself. -/
theorem respond_works (engine : Engine Token State) (key : Key) :
    engine.Works (engine.respond key).1 0 0 :=
  .of_carries ((Carries.refl engine).respond key) (respond_responded engine key).statistics_eq

/-- What is done at most by a call that leads to one slice of an engine with these options. -/
structure WithinSlice (options : Options) (executed slices : Nat) : Prop where
  slices_le : slices ≤ 1
  executed_le : executed ≤ slices * max 1 options.stepBudget
  executed_le_of_timeless : options.timeSlice = 0 → executed ≤ slices

theorem exists_slice_works (engine : Engine Token State) :
    ∃ executed slices, engine.Works engine.slice.1 executed slices ∧
      WithinSlice engine.options executed slices := by
  by_cases stands : engine.status ≠ .running ∨ engine.cancelRequested = true
  · exact ⟨0, 0, slice_works_of_not_running stands, by simp, by simp, by simp⟩
  · rcases not_or.mp stands with ⟨running, unrequested⟩
    have running := Decidable.not_not.mp running
    have unrequested := Bool.eq_false_iff.mpr unrequested
    rcases slice_works running unrequested with ⟨executed, bounded, works, inTime, _⟩
    exact ⟨executed, 1, works, Nat.le_refl 1, by omega, inTime.le_one⟩

theorem press_works (engine : Engine Token State) (key : Key) :
    ∃ executed slices, engine.Works (engine.press key).1 executed slices ∧
      WithinSlice engine.options executed slices := by
  have works := respond_works engine key
  have kin : engine.Kin (engine.respond key).1 :=
    (Kin.refl engine).responded (respond_responded engine key)
  have sameOptions : (engine.respond key).1.options = engine.options :=
    congrArg (·.2.1) kin.settings_eq
  rw [press_eq, follow]
  split
  · rcases exists_slice_works (engine.respond key).1 with ⟨executed, slices, worksLater, within⟩
    rw [sameOptions] at within
    refine ⟨executed, slices, ?_, within⟩
    rw [← Nat.zero_add executed, ← Nat.zero_add slices]
    exact works.trans worksLater
  · exact ⟨0, 0, works, by simp, by simp, by simp⟩

/-- A call returns what its status then asks for. -/
theorem Returns.next_eq {call : Call} {next : Next}
    (returns : engine.Returns call (some next) after) : next = after.status.next := by
  cases returns with
  | start source => exact start_next engine source
  | slice => exact slice_next engine
  | press key => exact press_next engine key
  | untilBlocked blocks =>
      refine Blocks.induction (motive := fun _ point => point.2 = point.1.status.next) ?_ ?_ blocks
      · intro engine _
        exact slice_next engine
      · intro engine point _ ih
        exact ih

/--
Whatever calls were made of an engine, a slice while it is running and no cancellation is asked for
is counted once and executes at most as many tokens as the step budget says, at least one being
allowed, and none behind a token where the time slice is used up; with time slices of no length it
executes exactly the next token, or none at the end of the program. Any other call for a slice
executes nothing and is not counted, and a key leads to no more than one slice. What a call returns
tells the status it leaves.
-/
theorem work_bounded (dialect : Dialect) (options : Options) (random : RandomStream)
    (observer : Observer) (clock : Clock) {calls : List Call} {answers : List Answer}
    {engine : Engine dialect.Token dialect.State}
    (history : (create dialect.language options random observer clock).History calls answers
      engine) :
    (engine.status = .running → engine.cancelRequested = false →
        ∃ executed ≤ max 1 options.stepBudget, engine.Works engine.slice.1 executed 1 ∧
          (∀ earlier, 0 < earlier → earlier < executed →
            clock (engine.statistics.instructions + earlier) < options.timeSlice) ∧
          (options.timeSlice = 0 → ∀ run, engine.phase = .running run →
            executed = if run.program.current?.isSome then 1 else 0)) ∧
      (engine.status ≠ .running ∨ engine.cancelRequested = true →
        engine.Works engine.slice.1 0 0) ∧
      (∀ key, ∃ executed slices, engine.Works (engine.press key).1 executed slices ∧
        WithinSlice options executed slices) ∧
      ∀ call next after, engine.Returns call (some next) after → next.Tells after.status := by
  obtain rfl : engine.options = options := congrArg (·.2.1) history.kin.settings_eq
  obtain rfl : engine.clock = clock := congrArg (·.2.2.2) history.kin.settings_eq
  refine ⟨?_, slice_works_of_not_running, press_works engine, ?_⟩
  · intro running unrequested
    exact slice_works running unrequested
  · intro call next after returns
    rw [returns.next_eq]
    exact after.status.tells_next

/-- A loop that never ends, with no time and no budget: one token a slice, one slice for a key. -/
theorem work_bounded_of_endless_loop :
    let fresh := create Dialect.brainfuck.language { timeSlice := 0, stepBudget := 0 } .zeros
      {} .stopped
    let began := (fresh.start ",+[]").1
    let waiting := began.slice.1
    fresh.History [.start ",+[]"] [] began ∧
      began.Works waiting 1 1 ∧ fresh.History [.start ",+[]", .slice] [] waiting ∧
      waiting.status = .suspended .char ∧ waiting.Works (waiting.press (.char 'a')).1 1 1 := by
  intro fresh began waiting
  have start : fresh.History [.start ",+[]"] [] began := History.nil.snoc (.start ",+[]")
  have history : fresh.History [.start ",+[]", .slice] [] waiting := start.snoc .slice
  have statistics : began.statistics = {} ∧ waiting.statistics = ⟨1, 1⟩ ∧
      (waiting.press (.char 'a')).1.statistics = ⟨2, 2⟩ := by
    decide +kernel
  have bounded {calls answers engine} (history : fresh.History calls answers engine) :=
    work_bounded .brainfuck { timeSlice := 0, stepBudget := 0 } .zeros {} .stopped history
  refine ⟨start, ?_, history, by decide +kernel, ?_⟩
  · rcases (bounded start).1 (by decide +kernel) (by decide +kernel) with ⟨executed, _, works, _⟩
    have counted := works.instructions_eq
    rw [statistics.1, statistics.2.1] at counted
    obtain rfl : executed = 1 := by simpa using counted.symm
    exact works
  · rcases (bounded history).2.2.1 (.char 'a') with ⟨executed, slices, works, _⟩
    have counted := works.instructions_eq
    have sliced := works.slices_eq
    rw [statistics.2.1, statistics.2.2] at counted sliced
    obtain rfl : executed = 1 := by simp only at counted; omega
    obtain rfl : slices = 1 := by simp only at sliced; omega
    exact works

end Engine

end Esoterica
