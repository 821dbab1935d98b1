import Esoterica.Proofs.Engine.History

/-!
# Transcripts

A host learns of an engine what its calls return and what events they report. A transcript lists
both, call by call. The events that were reported before do not matter for it: an engine records
them for the host and never looks at them again.
-/

namespace Esoterica

/-- A call, what it returned and what it reported. -/
structure Reply where
  call : Call
  next? : Option Next
  events : List Event

namespace Engine

variable {Token State : Type}

/-- What a call that comes to an end returns, and how it leaves the engine. -/
inductive Returns (engine : Engine Token State) :
    Call → Option Next → Engine Token State → Prop where
  | start (source : String) :
      Returns engine (.start source) (some (engine.start source).2) (engine.start source).1
  | slice : Returns engine .slice (some engine.slice.2) engine.slice.1
  | untilBlocked {point : Engine Token State × Next} (blocks : engine.Blocks point) :
      Returns engine .untilBlocked (some point.2) point.1
  | press (key : Key) :
      Returns engine (.press key) (some (engine.press key).2) (engine.press key).1
  | cancel : Returns engine .cancel none engine.cancel
  | requestCancel : Returns engine .requestCancel none engine.requestCancel
  | clearOutput : Returns engine .clearOutput none engine.clearOutput

/-- What the calls that lead from one engine to another return and report. -/
inductive Transcript (first : Engine Token State) : List Reply → Engine Token State → Prop where
  | nil : Transcript first [] first
  | snoc {replies : List Reply} {before after : Engine Token State} {reply : Reply}
      (transcript : Transcript first replies before)
      (returns : before.Returns reply.call reply.next? after)
      (reports : after.events.toList = before.events.toList ++ reply.events) :
      Transcript first (replies ++ [reply]) after

/-! ### What comes next is said by the status -/

theorem Ticked.next_eq {engine : Engine Token State} {run : Run Token State}
    {result : Engine Token State × Option Next} (ticked : Ticked engine run result) :
    result.2.getD .slice = result.1.status.next := by
  cases ticked <;> simp [status, Phase.status, Status.next]

theorem ticks_next (engine : Engine Token State) (remaining : Nat) :
    (engine.ticks remaining).2 = (engine.ticks remaining).1.status.next := by
  induction remaining using Nat.strongRecOn generalizing engine with
  | ind remaining ih =>
      cases requested : engine.cancelRequested with
      | true =>
          rw [ticks_of_requested requested]
          rfl
      | false =>
          by_cases running : engine.status = .running
          · rcases Phase.status_eq_running_iff.mp running with ⟨run, phase⟩
            have next := (tick_ticked phase).next_eq
            rcases ticks : engine.tick with ⟨after, _ | told⟩
            · rw [ticks] at next
              rcases ticks_of_proceed requested ticks remaining with
                cut | ⟨fewer, less, _, continues⟩
              · rw [cut]
                exact next
              · rw [continues]
                exact ih fewer less after
            · rw [ticks] at next
              rw [ticks_of_stop requested ticks]
              exact next
          · rw [ticks_of_stop requested (tick_of_not_running running)]

theorem slice_next (engine : Engine Token State) :
    engine.slice.2 = engine.slice.1.status.next := by
  cases requested : engine.cancelRequested with
  | true =>
      rw [slice_of_requested requested]
      rfl
  | false =>
      by_cases running : engine.status = .running
      · rw [slice_of_running requested running]
        exact ticks_next _ _
      · rw [slice_of_not_running requested running]
        rfl

theorem press_next (engine : Engine Token State) (key : Key) :
    (engine.press key).2 = (engine.press key).1.status.next := by
  rw [press_eq]
  unfold follow
  split
  · exact slice_next _
  · rfl

theorem start_next (engine : Engine Token State) (source : String) :
    (engine.start source).2 = (engine.start source).1.status.next := by
  rw [start_eq]
  split
  · simp [Phase.status, Status.next]
  · simp [Status.next]

/-! ### Events reported earlier -/

/-- The engine with events that were reported before its own. -/
def recalling (engine : Engine Token State) (earlier : Array Event) : Engine Token State :=
  { engine with events := earlier ++ engine.events }

theorem recalling_forgetEvents (engine : Engine Token State) :
    engine.forgetEvents.recalling engine.events = engine := by
  simp [recalling, forgetEvents]

theorem unnoticed_recalling (earlier : Array Event) :
    Unnoticed fun engine : Engine Token State => engine.recalling earlier where
  language_eq _ := rfl
  console_eq _ := rfl
  random_eq _ := rfl
  phase_eq _ := rfl
  cancelRequested_eq _ := rfl
  emit engine events := by simp only [emit, recalling, Array.append_assoc]
  unrequest _ := rfl
  withPhase _ _ := rfl
  withConsole _ _ := rfl
  countInstruction _ _ := rfl

section recalling

variable (engine : Engine Token State) (earlier : Array Event)

theorem cancel_recalling :
    (engine.recalling earlier).cancel = engine.cancel.recalling earlier :=
  (unnoticed_recalling earlier).cancel engine

theorem clearOutput_recalling :
    (engine.recalling earlier).clearOutput = engine.clearOutput.recalling earlier :=
  (unnoticed_recalling earlier).updateConsole engine Console.clear

theorem ticks_recalling (remaining : Nat) :
    (engine.recalling earlier).ticks remaining =
      ((engine.ticks remaining).1.recalling earlier, (engine.ticks remaining).2) := by
  have ticksAlike (engine : Engine Token State) := (unnoticed_recalling earlier).tick engine
  induction remaining generalizing engine with
  | zero =>
      rw [ticks, ticks, ticksAlike, cancel_recalling]
      change (if engine.cancelRequested = true then _ else _) = _
      split
      · rfl
      · rcases engine.tick with ⟨after, _ | next⟩
        · rfl
        · rfl
  | succ remaining ih =>
      rw [ticks, ticks, ticksAlike, cancel_recalling]
      change (if engine.cancelRequested = true then _ else _) = _
      split
      · rfl
      · rcases engine.tick with ⟨after, _ | next⟩
        · simp only [ih]
          change (if after.options.timeSlice ≤ after.clock after.statistics.instructions then _
            else _) = _
          split
          · rfl
          · rfl
        · rfl

theorem slice_recalling :
    (engine.recalling earlier).slice = (engine.slice.1.recalling earlier, engine.slice.2) := by
  cases requested : engine.cancelRequested with
  | true =>
      have requestedToo : (engine.recalling earlier).cancelRequested = true := requested
      rw [slice_of_requested requested, slice_of_requested requestedToo, cancel_recalling]
      rfl
  | false =>
      have requestedToo : (engine.recalling earlier).cancelRequested = false := requested
      by_cases running : engine.status = .running
      · rw [slice_of_running requested running, slice_of_running requestedToo running]
        exact ticks_recalling engine.countSlice earlier _
      · rw [slice_of_not_running requested running, slice_of_not_running requestedToo running]
        rfl

theorem slices_recalling (fuel : Nat) :
    slices fuel (engine.recalling earlier) =
      (slices fuel engine).map fun point => (point.1.recalling earlier, point.2) := by
  induction fuel generalizing engine with
  | zero => rfl
  | succ fuel ih =>
      rw [slices_succ, slices_succ, slice_recalling]
      split
      · exact ih engine.slice.1
      · rfl

theorem press_recalling (key : Key) :
    (engine.recalling earlier).press key =
      ((engine.press key).1.recalling earlier, (engine.press key).2) := by
  have respondsAlike := (unnoticed_recalling earlier).respond engine key
  rw [press_eq, press_eq, respondsAlike]
  unfold follow
  split
  · exact slice_recalling _ earlier
  · rfl

theorem wiped_recalling : (engine.recalling earlier).wiped = engine.wiped.recalling earlier :=
  (unnoticed_recalling earlier).updateConsole
    { engine with
      cancelRequested := false
      statistics := {}
      random := engine.options.randomStream engine.random } Console.wipe

theorem start_recalling (source : String) :
    (engine.recalling earlier).start source =
      ((engine.start source).1.recalling earlier, (engine.start source).2) := by
  have unnoticed : Unnoticed fun engine : Engine Token State => engine.recalling earlier :=
    unnoticed_recalling earlier
  have sameLanguage : (engine.recalling earlier).language = engine.language := rfl
  rw [start_eq, start_eq, wiped_recalling, sameLanguage]
  cases engine.language.read source with
  | ok program =>
      simp only [unnoticed.enter]
      rfl
  | error error => simp only [unnoticed.fail]

end recalling

/-! ### Engines with other events behind them -/

variable {engine after left right leftAfter : Engine Token State}

/-- A call does and returns the same when other events were reported before it. -/
theorem Returns.recalling {call : Call} {next? : Option Next} {earlier : Array Event}
    (returns : (engine.recalling earlier).Returns call next? after) (others : Array Event) :
    ∃ later : Engine Token State, after = later.recalling earlier ∧
      (engine.recalling others).Returns call next? (later.recalling others) := by
  cases returns with
  | start source =>
      have starts : (engine.recalling others).Returns (.start source) _ _ := .start source
      rw [start_recalling] at starts ⊢
      exact ⟨_, rfl, starts⟩
  | slice =>
      have slices : (engine.recalling others).Returns .slice _ _ := .slice
      rw [slice_recalling] at slices ⊢
      exact ⟨_, rfl, slices⟩
  | untilBlocked blocks =>
      rcases blocks with ⟨fuel, reached⟩
      rw [slices_recalling] at reached
      rcases Option.map_eq_some_iff.mp reached with ⟨point, reachedAlone, rfl⟩
      refine ⟨point.1, rfl, ?_⟩
      have blocks : (engine.recalling others).Blocks (point.1.recalling others, point.2) := by
        refine ⟨fuel, ?_⟩
        rw [slices_recalling, reachedAlone]
        rfl
      exact .untilBlocked blocks
  | press key =>
      have presses : (engine.recalling others).Returns (.press key) _ _ := .press key
      rw [press_recalling] at presses ⊢
      exact ⟨_, rfl, presses⟩
  | cancel =>
      have cancels : (engine.recalling others).Returns .cancel _ _ := .cancel
      rw [cancel_recalling] at cancels ⊢
      exact ⟨_, rfl, cancels⟩
  | requestCancel => exact ⟨engine.requestCancel, rfl, .requestCancel⟩
  | clearOutput =>
      have clears : (engine.recalling others).Returns .clearOutput _ _ := .clearOutput
      rw [clearOutput_recalling] at clears ⊢
      exact ⟨_, rfl, clears⟩

theorem Makes.exists_returns {call : Call} (makes : engine.Makes call after) :
    ∃ next?, engine.Returns call next? after := by
  cases makes with
  | start source => exact ⟨_, .start source⟩
  | slice => exact ⟨_, .slice⟩
  | untilBlocked blocks => exact ⟨_, .untilBlocked blocks⟩
  | press key => exact ⟨_, .press key⟩
  | cancel => exact ⟨_, .cancel⟩
  | requestCancel => exact ⟨_, .requestCancel⟩
  | clearOutput => exact ⟨_, .clearOutput⟩

theorem Returns.exists_events {call : Call} {next? : Option Next}
    (returns : engine.Returns call next? after) :
    ∃ events, after.events.toList = engine.events.toList ++ events := by
  rw [← recalling_forgetEvents engine] at returns
  rcases returns.recalling #[] with ⟨later, rfl, _⟩
  exact ⟨later.events.toList, Array.toList_append⟩

theorem History.exists_transcript {calls : List Call} {answers : List Answer}
    (history : engine.History calls answers after) :
    ∃ replies, replies.map Reply.call = calls ∧ engine.Transcript replies after := by
  induction history with
  | nil => exact ⟨[], rfl, .nil⟩
  | @snoc calls answers before after call history makes ih =>
      rcases ih with ⟨replies, sameCalls, transcript⟩
      rcases makes.exists_returns with ⟨next?, returns⟩
      rcases returns.exists_events with ⟨events, reports⟩
      refine ⟨replies ++ [{ call, next?, events }], ?_, transcript.snoc returns reports⟩
      simp [sameCalls]

/-- Engines that differ in nothing but the events reported so far give the same transcripts. -/
theorem Transcript.of_forgetEvents {replies : List Reply}
    (transcript : left.Transcript replies leftAfter)
    (same : left.forgetEvents = right.forgetEvents) :
    ∃ rightAfter, right.Transcript replies rightAfter ∧
      leftAfter.forgetEvents = rightAfter.forgetEvents := by
  induction transcript with
  | nil => exact ⟨right, .nil, same⟩
  | @snoc replies before after reply transcript returns reports ih =>
      rcases ih with ⟨beforeToo, transcriptToo, sameBefore⟩
      -- The last call is made with the events of the one engine exchanged for those of the other.
      rw [← recalling_forgetEvents before] at returns
      rcases returns.recalling beforeToo.events with ⟨later, rfl, returnsToo⟩
      rw [sameBefore, recalling_forgetEvents] at returnsToo
      refine ⟨_, transcriptToo.snoc returnsToo ?_, rfl⟩
      simpa [Engine.recalling] using reports

end Engine

end Esoterica
