import Esoterica.Proofs.Dialect
import Esoterica.Proofs.Engine.History

/-!
# Suspension transparency

An engine that is driven by slices and keys does what a plain run of the same program does that is
given the committed answers. `Follows` relates an engine to a standing of the plain run: the machine
there is the one of the engine, but for the echo and for changes of the console. Each token and
each answer keeps engine and plain run together, and whenever the plain run stops, the engine
reaches a point where it asks for no further slice.
-/

namespace Esoterica

namespace Console

@[simp]
theorem write_output (console : Console) (text : String) :
    (console.write text).output = console.output ++ text := by
  unfold write
  split
  · rename_i isEmpty
    rw [String.isEmpty_iff.mp isEmpty, String.append_empty]
  · rfl

theorem commit_output (console : Console) (keep : Bool) :
    (console.commit keep).output =
      if keep then console.output ++ console.echo else console.output := by
  unfold commit
  simp only
  split
  · rename_i isEmpty
    rw [String.isEmpty_iff.mp isEmpty, String.append_empty]
    simp
  · cases keep with
    | false => simp
    | true => simp

end Console

namespace Phase

variable {Token State : Type}

/-- How the run of an engine stands, unless there is none or it was cancelled. -/
def verdict? : Phase Token State → Option Verdict
  | running _ => some .unfinished
  | suspended _ _ => some .waiting
  | completed => some .completed
  | failed (.instruction _ _ fault) => some (.failed fault)
  | failed (.source _) | idle | cancelled => none

theorem status_eq_running_of_verdict {phase : Phase Token State}
    (unfinished : phase.verdict? = some .unfinished) : phase.status = .running := by
  unfold verdict? at unfinished
  split at unfinished
  · rfl
  all_goals cases unfinished

end Phase

namespace Engine

variable {Token State : Type}

/-- The machine on which a program is started. -/
def firstMachine (engine : Engine Token State) (program : Program Token) :
    Machine Token State where
  program := program.rewind
  state := engine.language.initial engine.options
  random := engine.options.randomStream engine.random

/-- The engine is where a plain run is that has executed the same number of tokens. -/
structure Follows (language : Language Token State) (first : Machine Token State)
    (answers : List Answer) (steps : List (PlainStep Token State)) (machine : Machine Token State)
    (verdict : Verdict) (engine : Engine Token State) : Prop where
  language_eq : engine.language = language
  standing : language.Standing first answers steps machine verdict
  agrees : engine.phase.verdict? = some verdict ∨ engine.status = .cancelled
  count : steps.length = engine.statistics.instructions
  output : machine.console.output = engine.output
  run : ∀ run, engine.phase.run? = some run →
    machine.Alike (engine.machineAt run.program run.state)

/-- The engine is where some plain run is that was given the answers. -/
def Tracks (language : Language Token State) (first : Machine Token State) (answers : List Answer)
    (engine : Engine Token State) : Prop :=
  ∃ steps machine verdict, engine.Follows language first answers steps machine verdict

variable {language : Language Token State} {first machine : Machine Token State}
  {answers : List Answer} {steps : List (PlainStep Token State)} {verdict : Verdict}
  {engine : Engine Token State}

theorem tracks_cancel (tracks : Tracks language first answers engine) :
    Tracks language first answers engine.cancel := by
  rcases tracks with ⟨steps, machine, verdict, follows⟩
  refine ⟨steps, machine, verdict, ?_⟩
  unfold cancel
  simp only
  split
  · refine ⟨?_, follows.standing, Or.inr (by simp [Phase.status]), ?_, ?_, ?_⟩
    · simpa [updateConsole] using follows.language_eq
    · simpa [updateConsole] using follows.count
    · simpa [updateConsole, Engine.output] using follows.output
    · simp [Phase.run?]
  · exact ⟨follows.language_eq, follows.standing, follows.agrees, follows.count, follows.output,
      follows.run⟩

/-! ### Tokens -/

section Running

variable {run : Run Token State}

theorem Follows.of_running (follows : Follows language first answers steps machine verdict engine)
    (running : engine.phase = .running run) :
    language.Standing first answers steps machine .unfinished := by
  rcases follows.agrees with agrees | cancelled
  · rw [running] at agrees
    cases agrees
    exact follows.standing
  · rw [status, running] at cancelled
    cases cancelled

/-- The next token does the same to the engine and to a machine that is alike. -/
theorem attempt_alike (tame : ∀ token, (language.execute token).Tame)
    (language_eq : engine.language = language)
    (alike : machine.Alike (engine.machineAt run.program run.state)) {token : Token}
    {result : Except Fault Flow} {after : Machine Token State}
    (current : run.program.current? = some token)
    (attempts : engine.attempt run token = (result, after)) :
    machine.program.current? = some token ∧
      ∃ plain, language.perform token machine.behind = (result, plain) ∧ plain.Alike after := by
  have program : machine.program = run.program := alike.program
  have alikeBehind : machine.behind.Alike (engine.machineAt run.program.step run.state) :=
    ⟨congrArg Program.step alike.program, alike.state, alike.random, alike.output⟩
  rcases Language.perform_alike (tame token) alikeBehind with ⟨sameResult, alikeAfter⟩
  rw [attempt, language_eq] at attempts
  rw [attempts] at sameResult alikeAfter
  refine ⟨?_, (language.perform token machine.behind).2, Prod.ext sameResult rfl, alikeAfter⟩
  rw [program, current]

/-- The engine carries on the run from the machine that it takes back. -/
theorem alike_adopt {plain after : Machine Token State} (alike : plain.Alike after) :
    plain.Alike ((engine.adopt after).machineAt after.program after.state) where
  program := alike.program
  state := alike.state
  random := by simpa [machineAt] using alike.random
  output := by simpa [machineAt] using alike.output

theorem enter_machineAt (phase : Phase Token State) :
    (engine.enter phase).machineAt = engine.machineAt := by
  funext program state
  simp [machineAt]

/-- Where the plain run stops, an engine that took the same token follows it. -/
theorem Follows.stop {after : Engine Token State} {more : List (PlainStep Token State)}
    {ending : PlainEnd} (follows : Follows language first answers steps machine verdict engine)
    (running : engine.phase = .running run) (stops : language.Stops machine [] more ending)
    (sameLanguage : after.language = engine.language)
    (agrees : after.phase.verdict? = some (PlainStep.verdict more ending))
    (count : after.statistics.instructions = engine.statistics.instructions + more.length)
    (output : (PlainStep.lastMachine machine more).console.output = after.output)
    (run : ∀ run, after.phase.run? = some run →
      (PlainStep.lastMachine machine more).Alike (after.machineAt run.program run.state)) :
    Tracks language first answers after := by
  rcases (follows.of_running running).passage with ⟨passage, faultless⟩
  refine ⟨_, _, _, ?_, .stopped passage faultless stops, Or.inl agrees, ?_, output, run⟩
  · rw [sameLanguage, follows.language_eq]
  · rw [count, List.length_append, follows.count]

/-- Behind a token after which the plain run goes on, the engine follows it. -/
theorem Follows.goOn (follows : Follows language first answers steps machine verdict engine)
    (running : engine.phase = .running run) {step : PlainStep Token State}
    {after : Machine Token State} (passes : language.Passes machine [] step)
    (faultless : step.fault? = none) (alike : step.machine.Alike after) :
    Tracks language first answers (engine.adopt after) := by
  have standing := (follows.of_running running).goesOn passes faultless
  refine ⟨_, _, _, ?_, standing, ?_, ?_, ?_, ?_⟩
  · simpa using follows.language_eq
  · simp [Phase.verdict?]
  · simp [follows.count]
  · simpa [Engine.output] using alike.output
  · intro run isRun
    simp only [adopt_phase, Phase.run?, Option.some.injEq] at isRun
    subst isRun
    exact alike_adopt alike

/-- Whatever the next token does to the engine, the plain run does it too. -/
theorem Follows.ticked {result : Engine Token State × Option Next}
    (follows : Follows language first answers steps machine verdict engine)
    (tame : ∀ token, (language.execute token).Tame) (running : engine.phase = .running run)
    (ticked : Ticked engine run result) : Tracks language first answers result.1 := by
  have alike := follows.run run (by rw [running]; rfl)
  have state : machine.state = run.state := alike.state
  cases ticked with
  -- Behind the last token nothing is executed, so both cases add no step.
  | finished atEnd accepts =>
      have ends : machine.program.current? = none := by rw [alike.program]; exact atEnd
      rw [follows.language_eq, ← state] at accepts
      refine follows.stop running (.finished ends) ?_ ?_ ?_ ?_ ?_
      · simp
      · simp [accepts, Phase.verdict?, PlainStep.verdict, PlainEnd.verdict]
      · simp
      · simpa [Engine.output] using follows.output
      · simp [Phase.run?]
  | unfinished atEnd refuses =>
      have ends : machine.program.current? = none := by rw [alike.program]; exact atEnd
      rw [follows.language_eq, ← state] at refuses
      refine follows.stop running (.finished ends) ?_ ?_ ?_ ?_ ?_
      · simp
      · simp [refuses, Phase.verdict?, PlainStep.verdict, PlainEnd.verdict, Engine.unfinished]
      · simp
      · simpa [Engine.output] using follows.output
      · simp [Phase.run?]
  | proceeded current attempts =>
      rcases attempt_alike tame follows.language_eq alike current attempts with
        ⟨current, plain, performs, alike⟩
      exact follows.goOn running (.goesOn current performs (Or.inl rfl)) rfl alike
  | yielded current attempts =>
      rcases attempt_alike tame follows.language_eq alike current attempts with
        ⟨current, plain, performs, alike⟩
      exact follows.goOn running (.goesOn current performs (Or.inr rfl)) rfl alike
  | asked current attempts =>
      rcases attempt_alike tame follows.language_eq alike current attempts with
        ⟨current, plain, performs, alike⟩
      refine follows.stop running (.starved current performs) ?_ ?_ ?_ ?_ ?_
      · simp
      · simp [Phase.verdict?, PlainStep.verdict, PlainStep.fault?, PlainEnd.verdict]
      · simp
      · simpa [Engine.output] using alike.output
      · intro run isRun
        simp only [enter_phase, Phase.run?, Option.some.injEq] at isRun
        subst isRun
        rw [enter_machineAt]
        exact alike_adopt alike
  | halted current attempts =>
      rcases attempt_alike tame follows.language_eq alike current attempts with
        ⟨current, plain, performs, alike⟩
      refine follows.stop running (.halted current performs) ?_ ?_ ?_ ?_ ?_
      · simp
      · simp [Phase.verdict?, PlainStep.verdict, PlainStep.fault?, PlainEnd.verdict]
      · simp
      · simpa [Engine.output] using alike.output
      · simp [Phase.run?]
  | failed current attempts =>
      rcases attempt_alike tame follows.language_eq alike current attempts with
        ⟨current, plain, performs, alike⟩
      refine follows.stop running (.failed current performs) ?_ ?_ ?_ ?_ ?_
      · simp
      · simp [Phase.verdict?, PlainStep.verdict, PlainStep.fault?, failedAt]
      · simp
      · simpa [Engine.output] using alike.output
      · simp [Phase.run?]

end Running

theorem keptBySlices_tracks (tame : ∀ token, (language.execute token).Tame) :
    KeptBySlices (Tracks language first answers) where
  cancel engine tracks := tracks_cancel tracks
  countSlice engine tracks := by
    rcases tracks with ⟨steps, machine, verdict, follows⟩
    exact ⟨steps, machine, verdict, follows.language_eq, follows.standing, follows.agrees,
      follows.count, follows.output, follows.run⟩
  ticked engine run result running _ ticked tracks := by
    rcases tracks with ⟨steps, machine, verdict, follows⟩
    exact follows.ticked tame running ticked

/-! ### Keys -/

section Suspended

variable {run : Run Token State} {prompt : Prompt}

theorem Follows.of_suspended (follows : Follows language first answers steps machine verdict engine)
    (suspended : engine.phase = .suspended run prompt) :
    language.Standing first answers steps machine .waiting := by
  rcases follows.agrees with agrees | cancelled
  · rw [suspended] at agrees
    cases agrees
    exact follows.standing
  · rw [status, suspended] at cancelled
    cases cancelled

/-- The line of an answer becomes part of the output if the language keeps lines. -/
theorem consoleAfter_output (engine : Engine Token State) (request : Request) :
    (engine.consoleAfter request).output =
      if engine.language.keepsLines then engine.output ++ request.lineIn engine.console
      else engine.output := by
  cases request with
  | line form => exact Console.commit_output _ _
  | char =>
      simp only [consoleAfter, Request.lineIn, String.append_empty, ite_self]
      rfl

/-- An answer does the same to the console of the engine and to that of the plain run. -/
theorem Follows.written (follows : Follows language first answers steps machine verdict engine)
    {answer : Answer} (line : answer.line = prompt.request.lineIn engine.console) :
    (language.answered answer machine.console).output =
      (engine.consoleAfter prompt.request).output := by
  rw [consoleAfter_output, follows.language_eq, ← follows.output, ← line]
  unfold Language.answered
  split
  · exact Console.write_output _ _
  · rfl

theorem Follows.accepted {answer : Answer} {state : State}
    (follows : Follows language first answers steps machine verdict engine)
    (suspended : engine.phase = .suspended run prompt)
    (line : answer.line = prompt.request.lineIn engine.console)
    (receives : engine.language.receive answer.entry run.state = .ok state) :
    Tracks language first (answers ++ [answer])
      ((Engine.publish { engine with console := engine.consoleAfter prompt.request }).enter
        (.running { program := run.program, state })) := by
  have alike := follows.run run (by rw [suspended]; rfl)
  have sameState : machine.state = run.state := alike.state
  have written := follows.written line
  rw [follows.language_eq, ← sameState] at receives
  rcases (follows.of_suspended suspended).accepted (Language.answer_of_ok receives) with
    ⟨passed, length, standing⟩
  refine ⟨_, _, _, ?_, standing, ?_, ?_, ?_, ?_⟩
  · simpa using follows.language_eq
  · simp [Phase.verdict?]
  · simpa [length] using follows.count
  · simpa [Engine.output] using written
  · intro other isRun
    simp only [enter_phase, Phase.run?, Option.some.injEq] at isRun
    subst isRun
    rw [enter_machineAt]
    exact ⟨alike.program, rfl, by simpa [machineAt] using alike.random,
      by simpa [machineAt] using written⟩

theorem Follows.refused {answer : Answer} {fault : Fault}
    (follows : Follows language first answers steps machine verdict engine)
    (suspended : engine.phase = .suspended run prompt)
    (line : answer.line = prompt.request.lineIn engine.console)
    (refuses : engine.language.receive answer.entry run.state = .error fault) :
    Tracks language first (answers ++ [answer])
      ((Engine.publish { engine with console := engine.consoleAfter prompt.request }).fail
        (engine.refusedAt run fault)) := by
  have alike := follows.run run (by rw [suspended]; rfl)
  have sameState : machine.state = run.state := alike.state
  have written := follows.written line
  rw [follows.language_eq, ← sameState] at refuses
  rcases (follows.of_suspended suspended).rejected (Language.answer_of_error refuses) with
    ⟨passed, length, standing⟩
  refine ⟨_, _, _, ?_, standing, ?_, ?_, ?_, ?_⟩
  · simpa using follows.language_eq
  · simp [Phase.verdict?, refusedAt]
  · simpa [length] using follows.count
  · simpa [Engine.output] using written
  · simp [Phase.run?]

theorem Follows.edited (follows : Follows language first answers steps machine verdict engine)
    (suspended : engine.phase = .suspended run prompt) (key : Key) :
    Tracks language first answers
      (Engine.publish
        { engine with
          console := (prompt.press key engine.console).2.2
          phase := .suspended run (prompt.press key engine.console).2.1 }) := by
  have sameOutput : (prompt.press key engine.console).2.2.output = engine.console.output := by
    rcases prompt.press_console key engine.console with unchanged | ⟨echo, changed⟩
    · rw [unchanged]
    · rw [changed]
      rfl
  have alike := follows.run run (by rw [suspended]; rfl)
  refine ⟨steps, machine, .waiting, ?_, follows.of_suspended suspended, ?_, ?_, ?_, ?_⟩
  · simpa using follows.language_eq
  · simp [Phase.verdict?]
  · simpa using follows.count
  · simpa [Engine.output, sameOutput] using follows.output
  · intro other isRun
    simp only [publish_phase, Phase.run?, Option.some.injEq] at isRun
    subst isRun
    exact ⟨alike.program, alike.state, by simpa [machineAt] using alike.random,
      by simpa [machineAt, sameOutput] using alike.output⟩

end Suspended

/-- A key takes the plain run along with the answer that it commits. -/
theorem Tracks.responded {key : Key} {response : Engine Token State × Bool}
    (tracks : Tracks language first answers engine) (responded : Responded engine key response) :
    Tracks language first (answers ++ (engine.committed? key).toList) response.1 := by
  cases responded with
  | cancelled uncommitted =>
      rw [uncommitted, Option.toList_none, List.append_nil]
      exact tracks_cancel tracks
  | ignored uncommitted =>
      rw [uncommitted, Option.toList_none, List.append_nil]
      exact tracks
  | edited suspended uncommitted =>
      rw [uncommitted, Option.toList_none, List.append_nil]
      rcases tracks with ⟨steps, machine, verdict, follows⟩
      exact follows.edited suspended key
  | accepted suspended commits line receives =>
      rw [commits]
      rcases tracks with ⟨steps, machine, verdict, follows⟩
      exact follows.accepted suspended line receives
  | refused suspended commits line refuses =>
      rw [commits]
      rcases tracks with ⟨steps, machine, verdict, follows⟩
      exact follows.refused suspended line refuses

/-! ### Histories -/

theorem tracks_start {source : String} {program : Program Token}
    (reads : engine.language.read source = .ok program) :
    Tracks engine.language (engine.firstMachine program) [] (engine.start source).1 := by
  rw [start_eq, reads]
  refine ⟨[], engine.firstMachine program, .unfinished, ?_, .ready .nil (by simp), ?_, ?_, ?_, ?_⟩
  · simp [wiped, updateConsole]
  · simp [Phase.verdict?]
  · simp [wiped, updateConsole]
  · simp [wiped, updateConsole, Engine.output, firstMachine]
  · intro run isRun
    simp only [enter_phase, Phase.run?, Option.some.injEq] at isRun
    subst isRun
    rw [enter_machineAt]
    refine ⟨rfl, rfl, ?_, ?_⟩
    · simp [machineAt, firstMachine, wiped, updateConsole]
    · simp [machineAt, firstMachine, wiped, updateConsole]

/-- No cancellation was asked for, and the observer never asks for one. -/
structure Undisturbed (engine : Engine Token State) : Prop where
  quiet : ∀ memory event, engine.observer.cancelsAt memory event = false
  unrequested : engine.cancelRequested = false

theorem Undisturbed.emit (undisturbed : engine.Undisturbed) (events : List Event) :
    (engine.emit events).Undisturbed where
  quiet := undisturbed.quiet
  unrequested := by
    simp only [Engine.emit, undisturbed.unrequested, Bool.false_or]
    exact Observer.asksAmong_eq_false (fun event _ memory => undisturbed.quiet memory event) _

theorem Undisturbed.publish (undisturbed : engine.Undisturbed) : engine.publish.Undisturbed := by
  rw [publish_eq]
  apply Undisturbed.emit
  exact ⟨undisturbed.quiet, undisturbed.unrequested⟩

theorem Undisturbed.enter (undisturbed : engine.Undisturbed) (phase : Phase Token State) :
    (engine.enter phase).Undisturbed := by
  rw [enter_eq]
  apply Undisturbed.emit
  exact ⟨undisturbed.quiet, undisturbed.unrequested⟩

theorem Undisturbed.fail (undisturbed : engine.Undisturbed) (failure : Failure) :
    (engine.fail failure).Undisturbed := by
  have dropped : (engine.updateConsole Console.dropEcho).Undisturbed :=
    publish ⟨undisturbed.quiet, undisturbed.unrequested⟩
  apply Undisturbed.enter
  exact ⟨dropped.quiet, by simp [report, dropped.unrequested, dropped.quiet]⟩

theorem Undisturbed.cancel (undisturbed : engine.Undisturbed) : engine.cancel.Undisturbed := by
  unfold Engine.cancel
  simp only
  split
  · apply Undisturbed.enter
    apply Undisturbed.publish
    exact ⟨undisturbed.quiet, rfl⟩
  · exact ⟨undisturbed.quiet, rfl⟩

theorem Undisturbed.adopt (undisturbed : engine.Undisturbed) (machine : Machine Token State) :
    (engine.adopt machine).Undisturbed :=
  publish ⟨undisturbed.quiet, undisturbed.unrequested⟩

theorem keptBySlices_undisturbed :
    KeptBySlices (fun engine : Engine Token State => engine.Undisturbed) where
  cancel engine undisturbed := undisturbed.cancel
  countSlice engine undisturbed := ⟨undisturbed.quiet, undisturbed.unrequested⟩
  ticked engine run result running _ ticked undisturbed := by
    cases ticked with
    | finished atEnd accepts => exact undisturbed.enter _
    | unfinished atEnd refuses => exact undisturbed.fail _
    | proceeded current attempts => exact undisturbed.adopt _
    | yielded current attempts => exact undisturbed.adopt _
    | asked current attempts => exact (undisturbed.adopt _).enter _
    | halted current attempts => exact (undisturbed.adopt _).enter _
    | failed current attempts => exact (undisturbed.adopt _).fail _

theorem Undisturbed.responded {key : Key} {response : Engine Token State × Bool}
    (undisturbed : engine.Undisturbed) (responded : Responded engine key response) :
    response.1.Undisturbed := by
  cases responded with
  | cancelled uncommitted => exact undisturbed.cancel
  | ignored uncommitted => exact undisturbed
  | edited suspended uncommitted => exact publish ⟨undisturbed.quiet, undisturbed.unrequested⟩
  | accepted suspended commits line receives =>
      apply Undisturbed.enter
      exact publish ⟨undisturbed.quiet, undisturbed.unrequested⟩
  | refused suspended commits line refuses =>
      apply Undisturbed.fail
      exact publish ⟨undisturbed.quiet, undisturbed.unrequested⟩

theorem undisturbed_start {source : String} {program : Program Token}
    (quiet : ∀ memory event, engine.observer.cancelsAt memory event = false)
    (reads : engine.language.read source = .ok program) :
    (engine.start source).1.Undisturbed := by
  rw [start_eq, reads]
  apply Undisturbed.enter
  exact Undisturbed.publish ⟨quiet, rfl⟩

/-! ### Reaching the end of a plain run -/

/-- A running engine settles if a plain run from the same machine stops. -/
theorem settles_of_stopped (tame : ∀ token, (language.execute token).Tame) {run : Run Token State}
    {limit : Nat} (undisturbed : engine.Undisturbed) (language_eq : engine.language = language)
    (running : engine.phase = .running run)
    (alike : machine.Alike (engine.machineAt run.program run.state))
    (stopped : language.plainVerdict limit [] machine ≠ .unfinished) :
    ∃ point, Settles engine point ∧ point.1.status ≠ .running ∧ point.1.status ≠ .cancelled := by
  -- The limit bounds the tokens that are left to execute, however they are cut into slices.
  induction limit generalizing machine engine run with
  | zero => exact absurd rfl stopped
  | succ limit ih =>
      have unrequested := undisturbed.unrequested
      have isRunning : engine.status = .running := by
        rw [status, running]
        rfl
      have onward {token : Token} {flow : Flow} {after : Machine Token State}
          (current : run.program.current? = some token)
          (attempts : engine.attempt run token = (.ok flow, after))
          (onward : flow = .proceed ∨ flow = .yield) :
          ∃ point, Settles (engine.adopt after) point ∧ point.1.status ≠ .running ∧
            point.1.status ≠ .cancelled := by
        rcases attempt_alike tame language_eq alike current attempts with
          ⟨current, plain, performs, alike⟩
        have passes := Language.Passes.goesOn current performs onward
        have behind := passes.plainVerdict_eq rfl limit []
        rw [List.nil_append] at behind
        rw [behind] at stopped
        exact ih (undisturbed.adopt after) (by rw [adopt_language, language_eq]) (adopt_phase _ _)
          (alike_adopt alike) stopped
      rcases ticks : engine.tick with ⟨after, next?⟩
      have ticked := tick_ticked running
      rw [ticks] at ticked
      cases ticked with
      | finished atEnd accepts =>
          exact ⟨_, .stops unrequested isRunning ticks (by simp), by simp [Phase.status],
            by simp [Phase.status]⟩
      | unfinished atEnd refuses =>
          exact ⟨_, .stops unrequested isRunning ticks (by simp), by simp, by simp⟩
      | proceeded current attempts =>
          rcases onward current attempts (Or.inl rfl) with ⟨point, settles, stands⟩
          exact ⟨point, .goesOn unrequested isRunning ticks (Or.inl rfl) settles, stands⟩
      | yielded current attempts =>
          rcases onward current attempts (Or.inr rfl) with ⟨point, settles, stands⟩
          exact ⟨point, .goesOn unrequested isRunning ticks (Or.inr rfl) settles, stands⟩
      | asked current attempts =>
          exact ⟨_, .stops unrequested isRunning ticks (by simp), by simp [Phase.status],
            by simp [Phase.status]⟩
      | halted current attempts =>
          exact ⟨_, .stops unrequested isRunning ticks (by simp), by simp [Phase.status],
            by simp [Phase.status]⟩
      | failed current attempts =>
          exact ⟨_, .stops unrequested isRunning ticks (by simp), by simp, by simp⟩

/-- An engine is blocked in the end if the plain run that it follows stops. -/
theorem Follows.blocks (follows : Follows language first answers steps machine verdict engine)
    (tame : ∀ token, (language.execute token).Tame) (undisturbed : engine.Undisturbed)
    (uncancelled : engine.status ≠ .cancelled) {limit : Nat}
    (stopped : language.plainVerdict limit answers first ≠ .unfinished) :
    ∃ point, engine.Blocks point ∧ point.1.status ≠ .running ∧ point.1.status ≠ .cancelled := by
  have settles : ∃ point, Settles engine point ∧ point.1.status ≠ .running ∧
      point.1.status ≠ .cancelled := by
    by_cases running : engine.status = .running
    · rcases Phase.status_eq_running_iff.mp running with ⟨run, phase⟩
      rcases (follows.of_running phase).passage with ⟨passage, faultless⟩
      have behind := passage.plainVerdict_eq faultless limit []
      rw [List.append_nil, Nat.add_comm, Language.plainVerdict_add stopped] at behind
      rw [behind] at stopped
      exact settles_of_stopped tame undisturbed follows.language_eq phase
        (follows.run run (by rw [phase]; rfl)) stopped
    · exact ⟨_, .stands undisturbed.unrequested running, running, uncancelled⟩
  rcases settles with ⟨point, settles, stands⟩
  rcases settles.blocks engine.schedule with ⟨final, blocks⟩
  exact ⟨_, blocks, stands⟩

/-- An engine that is not running stands as the plain run does that it follows. -/
theorem Follows.verdict_eq (follows : Follows language first answers steps machine verdict engine)
    (stands : engine.status ≠ .running) (uncancelled : engine.status ≠ .cancelled) :
    language.plainVerdict (engine.statistics.instructions + 1) answers first ≠ .unfinished ∧
      engine.phase.verdict? =
        some (language.plainVerdict (engine.statistics.instructions + 1) answers first) := by
  have agrees := follows.agrees.resolve_right uncancelled
  have stopped : verdict ≠ .unfinished := by
    intro unfinished
    rw [unfinished] at agrees
    exact stands (Phase.status_eq_running_of_verdict agrees)
  rw [agrees, ← follows.count, follows.standing.plainVerdict_eq stopped]
  exact ⟨stopped, rfl⟩

/-- Asked for slices, an engine comes to stand as the plain run does that it tracks. -/
theorem Tracks.blocks (tracks : Tracks language first answers engine)
    (tame : ∀ token, (language.execute token).Tame) (undisturbed : engine.Undisturbed)
    (uncancelled : engine.status ≠ .cancelled) {limit : Nat}
    (stopped : language.plainVerdict limit answers first ≠ .unfinished) :
    ∃ point, engine.Blocks point ∧
      point.1.phase.verdict? = some (language.plainVerdict limit answers first) := by
  rcases tracks with ⟨steps, machine, verdict, follows⟩
  rcases follows.blocks tame undisturbed uncancelled stopped with
    ⟨point, blocks, stands, uncancelled⟩
  rcases (keptBySlices_tracks tame).blocks blocks ⟨steps, machine, verdict, follows⟩ with
    ⟨steps, machine, verdict, followsPoint⟩
  rcases followsPoint.verdict_eq stands uncancelled with ⟨stoppedPoint, agrees⟩
  refine ⟨point, blocks, ?_⟩
  rw [agrees, Language.plainVerdict_unique stoppedPoint stopped]

/--
Any calls that carry on a run leave the engine where a plain run is that has executed as many tokens
and was given the same answers. If the engine runs, the plain run can go on; otherwise both wait,
are completed or have failed with the same fault. And if the plain run stops, then so does the
engine when it is asked for slices, provided that nothing is cancelled.
-/
theorem suspension_transparent (dialect : Dialect)
    {engine after : Engine dialect.Token dialect.State} {source : String}
    {program : Program dialect.Token} {calls : List Call} {answers : List Answer}
    (speaks : engine.language = dialect.language)
    (reads : dialect.language.read source = .ok program)
    (history : (engine.start source).1.History calls answers after)
    (carryOn : ∀ call ∈ calls, call.carriesOn = true) :
    let first := engine.firstMachine program
    let count := after.statistics.instructions
    let steps := (dialect.language.plainRun count answers first).1
    let machine := PlainStep.lastMachine first steps
    steps.length = count ∧
      after.output = machine.console.output ∧
      (∀ run, after.phase.run? = some run →
        run.program = machine.program ∧ run.state = machine.state) ∧
      (after.status = .running →
        dialect.language.plainVerdict count answers first = .unfinished) ∧
      (after.status ≠ .running → after.status ≠ .cancelled →
        after.phase.verdict? = some (dialect.language.plainVerdict (count + 1) answers first)) ∧
      ((∀ memory event, engine.observer.cancelsAt memory event = false) →
        after.status ≠ .cancelled →
        ∀ limit, dialect.language.plainVerdict limit answers first ≠ .unfinished →
          ∃ point, after.Blocks point ∧
            point.1.phase.verdict? =
              some (dialect.language.plainVerdict limit answers first)) := by
  intro first count steps machine
  have tame := dialect.tame_execute
  rw [← speaks] at reads
  have tracks : Tracks dialect.language first answers after := by
    apply history.carry (fun answers => keptBySlices_tracks tame) _ carryOn
    · rw [← speaks]
      exact tracks_start reads
    · intro answers engine key tracks
      exact tracks.responded (respond_responded engine key)
  have undisturbed (quiet : ∀ memory event, engine.observer.cancelsAt memory event = false) :
      after.Undisturbed := by
    apply history.carry (fun _ => keptBySlices_undisturbed) _ carryOn
    · exact undisturbed_start quiet reads
    · intro _ engine key undisturbed
      exact undisturbed.responded (respond_responded engine key)
  rcases tracks with ⟨passed, reached, verdict, follows⟩
  have stepsEq : steps = passed := by
    have sameSteps := follows.standing.steps_eq
    rwa [follows.count] at sameSteps
  have machineEq : machine = reached := by
    rw [← follows.standing.lastMachine_eq, ← stepsEq]
  refine ⟨?_, ?_, ?_, ?_, ?_, ?_⟩
  · rw [stepsEq, follows.count]
  · rw [machineEq, follows.output]
  · intro run isRun
    have alike := follows.run run isRun
    rw [machineEq]
    exact ⟨alike.program.symm, alike.state.symm⟩
  · intro running
    rcases Phase.status_eq_running_iff.mp running with ⟨run, phase⟩
    have unfinished := (follows.of_running phase).plainVerdict_unfinished
    rwa [follows.count] at unfinished
  · intro stands uncancelled
    exact (follows.verdict_eq stands uncancelled).2
  · intro quiet uncancelled limit stopped
    exact Tracks.blocks ⟨passed, reached, verdict, follows⟩ tame (undisturbed quiet) uncancelled
      stopped

theorem history_slice_press (start : Engine Token State) (key : Key) :
    start.History [.slice, .press key] (start.slice.1.committed? key).toList
      (start.slice.1.press key).1 :=
  (History.nil.snoc .slice).snoc (.press key)

/-- A program that reads a character and writes it, with a slice and a key. -/
theorem suspension_transparent_of_character :
    let engine :=
      create Dialect.brainfuck.language { stepBudget := 2 } .zeros {} Clock.stopped
    let waiting := (engine.start ",.").1.slice.1
    let after := (waiting.press (.char 'a')).1
    let first := engine.firstMachine { tokens := #[.input, .output] }
    (engine.start ",.").1.History [.slice, .press (.char 'a')] [{ entry := .char 'a' }] after ∧
      after.output =
        (PlainStep.lastMachine first
          (Brainfuck.language.plainRun after.statistics.instructions [{ entry := .char 'a' }]
            first).1).console.output := by
  intro engine waiting after first
  have speaks : engine.language = Dialect.brainfuck.language := rfl
  have reads : Dialect.brainfuck.language.read ",." = .ok { tokens := #[.input, .output] } := rfl
  have commits : waiting.committed? (.char 'a') = some { entry := .char 'a' } := by rfl
  -- Nothing else has to be evaluated.
  clear_value engine
  have history := history_slice_press (engine.start ",.").1 (.char 'a')
  rw [commits, Option.toList_some] at history
  have transparent := suspension_transparent .brainfuck speaks reads history (by decide)
  exact ⟨history, transparent.2.1⟩

end Engine

end Esoterica
