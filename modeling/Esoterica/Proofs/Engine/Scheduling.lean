import Esoterica.Proofs.Dialect
import Esoterica.Proofs.Engine.Slices

/-!
# Scheduling independence

Two engines that differ in nothing but their schedules are driven by the same keys. A key that is
accepted is followed by a slice, and the engine is then asked for slices until it is blocked. So the
slice that follows the key may already reach the blocking point, and the cancellation flag is looked
at once more behind it. That makes no difference because the flag is down at every blocking point:
an instruction that asks for input, halts or fails has added nothing to the output.
-/

namespace Esoterica

namespace Observer

/--
Asks for a cancellation when one of the chosen texts is added to the output. Which texts these are
may depend on all events before.
-/
def onTexts (chosen : List Event → String → Bool) : Observer where
  remembers memory event := memory ++ [event]
  cancelsAt memory
    | .console (.appended text) => chosen memory text
    | _ => false

end Observer

namespace Engine

variable {Token State : Type}

/--
The engine's instructions are tame, its observer cancels only when text is added to the output, and
all changes of its console have been reported.
-/
structure Calm (engine : Engine Token State) : Prop where
  tame : ∀ token, (engine.language.execute token).Tame
  watches : ∃ chosen, engine.observer = .onTexts chosen
  published : engine.console.changes = #[]

theorem Calm.of_eq {engine after : Engine Token State} (calm : engine.Calm)
    (sameLanguage : after.language = engine.language)
    (sameObserver : after.observer = engine.observer)
    (published : after.console.changes = #[]) : after.Calm where
  tame := sameLanguage ▸ calm.tame
  watches := sameObserver ▸ calm.watches
  published := published

theorem Calm.withSchedule {engine : Engine Token State} (calm : engine.Calm)
    (schedule : Schedule) : (engine.withSchedule schedule).Calm :=
  calm.of_eq rfl rfl calm.published

theorem Calm.cancelsAt_eq_false {engine : Engine Token State} (calm : engine.Calm) {event : Event}
    (notText : ∀ text, event ≠ .console (.appended text)) (memory : List Event) :
    engine.observer.cancelsAt memory event = false := by
  rcases calm.watches with ⟨chosen, isOnTexts⟩
  rw [isOnTexts]
  cases event with
  | console change =>
      cases change with
      | appended text => exact absurd rfl (notText text)
      | truncated length => rfl
      | cleared => rfl
      | echoed echo => rfl
      | committed line kept => rfl
  | failed message => rfl
  | status status => rfl

theorem Calm.enter {engine : Engine Token State} (calm : engine.Calm)
    (phase : Phase Token State) : (engine.enter phase).Calm := by
  apply calm.of_eq
  · simp
  · simp
  · simpa using calm.published

theorem Calm.enter_unrequested {engine : Engine Token State} (calm : engine.Calm)
    (unrequested : engine.cancelRequested = false) (phase : Phase Token State) :
    (engine.enter phase).cancelRequested = false := by
  rw [enter_eq]
  simp only [emit, unrequested, announcement, Bool.false_or]
  apply Observer.asksAmong_eq_false
  intro event mem
  split at mem
  · cases mem
  · rw [List.mem_singleton.mp mem]
    exact calm.cancelsAt_eq_false (by simp)

theorem Calm.report_unrequested {engine : Engine Token State} (calm : engine.Calm)
    (unrequested : engine.cancelRequested = false) {event : Event}
    (notText : ∀ text, event ≠ .console (.appended text)) :
    (engine.report event).cancelRequested = false := by
  simp [report, unrequested, calm.cancelsAt_eq_false notText]

theorem Calm.updateConsole {engine : Engine Token State} (calm : engine.Calm)
    (change : Console → Console) : (engine.updateConsole change).Calm := by
  apply calm.of_eq
  · simp [Engine.updateConsole]
  · simp [Engine.updateConsole]
  · simp [Engine.updateConsole]

theorem Calm.dropEcho_unrequested {engine : Engine Token State} (calm : engine.Calm)
    (unrequested : engine.cancelRequested = false) :
    (engine.updateConsole Console.dropEcho).cancelRequested = false := by
  have ignoresEcho : engine.observer.cancelsAt engine.memory (.console (.echoed "")) = false :=
    calm.cancelsAt_eq_false (by simp) _
  unfold Engine.updateConsole Console.dropEcho
  rw [publish_eq]
  simp only [emit, unrequested, Bool.false_or]
  split
  · simp [calm.published, Observer.asksAmong]
  · simp [Console.setEcho, calm.published, Observer.asksAmong, ignoresEcho]

theorem Calm.fail {engine : Engine Token State} (calm : engine.Calm) (failure : Failure) :
    (engine.fail failure).Calm := by
  apply calm.of_eq
  · simp
  · simp
  · simp

theorem Calm.fail_unrequested {engine : Engine Token State} (calm : engine.Calm)
    (unrequested : engine.cancelRequested = false) (failure : Failure) :
    (engine.fail failure).cancelRequested = false := by
  have dropped : (engine.updateConsole Console.dropEcho).Calm := calm.updateConsole _
  have reported : ((engine.updateConsole Console.dropEcho).report (.failed failure.message)).Calm :=
    dropped.of_eq rfl rfl dropped.published
  apply reported.enter_unrequested
  apply dropped.report_unrequested
  · exact calm.dropEcho_unrequested unrequested
  · simp

/-- A cancellation takes back the request for it. -/
theorem Calm.cancel {engine : Engine Token State} (calm : engine.Calm) :
    engine.cancel.Calm ∧ engine.cancel.cancelRequested = false := by
  let unasked : Engine Token State := { engine with cancelRequested := false }
  have unaskedCalm : unasked.Calm := calm.of_eq rfl rfl calm.published
  have dropped := unaskedCalm.updateConsole Console.dropEcho
  unfold Engine.cancel
  simp only
  split
  · exact ⟨dropped.enter _, dropped.enter_unrequested (unaskedCalm.dropEcho_unrequested rfl) _⟩
  · exact ⟨unaskedCalm, rfl⟩

theorem Calm.adopt {engine : Engine Token State} (calm : engine.Calm)
    (machine : Machine Token State) : (engine.adopt machine).Calm := by
  apply calm.of_eq
  · simp
  · simp
  · simp

/-- Nothing is reported of a token that left the console alone. -/
theorem Calm.adopt_unrequested {engine : Engine Token State} (calm : engine.Calm)
    (unrequested : engine.cancelRequested = false) {machine : Machine Token State}
    (quiet : machine.console = engine.console) :
    (engine.adopt machine).cancelRequested = false := by
  unfold Engine.adopt
  rw [publish_eq]
  simp [emit, unrequested, quiet, calm.published, Observer.asksAmong]

theorem Calm.ticked {engine : Engine Token State} {run : Run Token State}
    {result : Engine Token State × Option Next} (calm : engine.Calm)
    (ticked : Ticked engine run result) : result.1.Calm := by
  cases ticked with
  | finished atEnd accepts => exact calm.enter _
  | unfinished atEnd refuses => exact calm.fail _
  | proceeded current attempts => exact calm.adopt _
  | yielded current attempts => exact calm.adopt _
  | asked current attempts => exact (calm.adopt _).enter _
  | halted current attempts => exact (calm.adopt _).enter _
  | failed current attempts => exact (calm.adopt _).fail _

/-- A calm engine that is blocked: no cancellation is pending there. -/
structure Rests (point : Engine Token State × Next) : Prop where
  calm : point.1.Calm
  unrequested : point.1.cancelRequested = false
  stands : point.1.status ≠ .running
  next : point.2 = point.1.status.next

/-- A token behind which no slice is called for leaves the engine at rest. -/
theorem Calm.rests_of_ticked {engine after : Engine Token State} {run : Run Token State}
    {next : Next} (calm : engine.Calm) (unrequested : engine.cancelRequested = false)
    (ticked : Ticked engine run (after, some next)) (final : next ≠ .slice) :
    Rests (after, next) := by
  have quiet {token : Token} {machine : Machine Token State} {result : Except Fault Flow}
      (attempts : engine.attempt run token = (result, machine)) (stops : result ≠ .ok .proceed) :
      (engine.adopt machine).cancelRequested = false :=
    calm.adopt_unrequested unrequested
      (Language.perform_console_of_stop (calm.tame token) attempts stops)
  have calmAfter : after.Calm := calm.ticked ticked
  cases ticked with
  | finished atEnd accepts =>
      exact ⟨calmAfter, calm.enter_unrequested unrequested _, by simp [Phase.status], by
        simp [Phase.status, Status.next]⟩
  | unfinished atEnd refuses =>
      exact ⟨calmAfter, calm.fail_unrequested unrequested _, by simp, by simp [Status.next]⟩
  | yielded current attempts => exact absurd rfl final
  | asked current attempts =>
      have unrequested := quiet attempts (by simp)
      exact ⟨calmAfter, (calm.adopt _).enter_unrequested unrequested _, by simp [Phase.status], by
        simp [Phase.status, Status.next]⟩
  | halted current attempts =>
      have unrequested := quiet attempts (by simp)
      exact ⟨calmAfter, (calm.adopt _).enter_unrequested unrequested _, by simp [Phase.status], by
        simp [Phase.status, Status.next]⟩
  | failed current attempts =>
      have unrequested := quiet attempts (by simp)
      exact ⟨calmAfter, (calm.adopt _).fail_unrequested unrequested _, by simp, by
        simp [Status.next]⟩

/-- A calm engine settles at rest. -/
theorem Settles.rests {engine : Engine Token State} {point : Engine Token State × Next}
    (settles : Settles engine point) (calm : engine.Calm) : Rests point := by
  induction settles with
  | @cancelled engine requested =>
      exact ⟨calm.cancel.1, calm.cancel.2, engine.cancel_status_ne_running, rfl⟩
  | stands unrequested stands => exact ⟨calm, unrequested, stands, rfl⟩
  | stops unrequested running ticks final =>
      rcases Phase.status_eq_running_iff.mp running with ⟨run, phase⟩
      have ticked := tick_ticked phase
      rw [ticks] at ticked
      exact calm.rests_of_ticked unrequested ticked final
  | goesOn unrequested running ticks onward settles ih =>
      rcases Phase.status_eq_running_iff.mp running with ⟨run, phase⟩
      have ticked := tick_ticked phase
      rw [ticks] at ticked
      exact ih (calm.ticked ticked)

theorem Calm.rests_of_blocks {engine : Engine Token State} {point : Engine Token State × Next}
    (calm : engine.Calm) (blocks : engine.Blocks point) : Rests point := by
  have rests := blocks.settles.rests calm
  exact ⟨rests.calm.withSchedule point.1.schedule, rests.unrequested, rests.stands, rests.next⟩

/-- An engine at rest stays there when it is asked for a slice. -/
theorem Rests.slice_eq {point : Engine Token State × Next} (rests : Rests point) :
    point.1.slice = point := by
  rw [slice_of_not_running rests.unrequested rests.stands]
  exact congrArg (Prod.mk point.1) rests.next.symm

/-- One more slice in front does not change where a calm engine is blocked. -/
theorem Calm.blocks_slice_iff {engine : Engine Token State} {point : Engine Token State × Next}
    (calm : engine.Calm) : engine.slice.1.Blocks point ↔ engine.Blocks point := by
  by_cases called : engine.slice.2 = .slice
  · constructor
    · intro blocks
      exact blocks_iff.mpr (Or.inr ⟨called, blocks⟩)
    · intro blocks
      rcases blocks_iff.mp blocks with ⟨final, _⟩ | ⟨_, blocks⟩
      · exact absurd called final
      · exact blocks
  · have rests : Rests engine.slice :=
      calm.rests_of_blocks (blocks_iff.mpr (Or.inl ⟨called, rfl⟩))
    rw [blocks_iff, rests.slice_eq, ← blocks_iff]

theorem Calm.responded {engine : Engine Token State} {key : Key}
    {response : Engine Token State × Bool} (calm : engine.Calm)
    (responded : Responded engine key response) : response.1.Calm := by
  cases responded with
  | cancelled uncommitted => exact calm.cancel.1
  | ignored uncommitted => exact calm
  | edited suspended uncommitted => exact calm.of_eq (by simp) (by simp) (by simp)
  | accepted suspended commits line receives =>
      apply Calm.enter
      exact calm.of_eq (by simp) (by simp) (by simp)
  | refused suspended commits line refuses =>
      apply Calm.fail
      exact calm.of_eq (by simp) (by simp) (by simp)

/-- Behind a key press, the slice that follows an accepted answer can be left out. -/
theorem Calm.press_blocks_iff {engine : Engine Token State} {point : Engine Token State × Next}
    (calm : engine.Calm) (key : Key) :
    (engine.press key).1.Blocks point ↔ (engine.respond key).1.Blocks point := by
  have responseCalm := calm.responded (respond_responded engine key)
  rw [press_eq]
  unfold follow
  split
  · exact responseCalm.blocks_slice_iff
  · rfl

/-- A key leads to the same blocking point under every schedule. -/
theorem Calm.press_withSchedule {engine : Engine Token State} {point : Engine Token State × Next}
    (calm : engine.Calm) {key : Key} (blocks : (engine.press key).1.Blocks point)
    (schedule : Schedule) :
    ∃ final, ((engine.withSchedule schedule).press key).1.Blocks
      (point.1.withSchedule final, point.2) := by
  rcases ((calm.press_blocks_iff key).mp blocks).withSchedule schedule with ⟨final, blocks⟩
  refine ⟨final, ((calm.withSchedule schedule).press_blocks_iff key).mpr ?_⟩
  rw [(unnoticed_withSchedule schedule).respond]
  exact blocks

/-! ### Driving an engine by keys -/

/-- Pressing keys, each at the blocking point before, leads from one blocking point to another. -/
def Leads : List Key → Engine Token State × Next → Engine Token State × Next → Prop
  | [], first, last => first = last
  | key :: keys, first, last =>
    ∃ middle, (first.1.press key).1.Blocks middle ∧ Leads keys middle last

/-- A program that is started and driven by keys is blocked at the point behind the last of them. -/
def Drives (engine : Engine Token State) (source : String) (keys : List Key)
    (point : Engine Token State × Next) : Prop :=
  ∃ first, (engine.start source).1.Blocks first ∧ Leads keys first point

theorem Leads.withSchedule {keys : List Key} {first last : Engine Token State × Next}
    (leads : Leads keys first last) (calm : first.1.Calm) (schedule : Schedule) :
    ∃ final, Leads keys (first.1.withSchedule schedule, first.2)
      (last.1.withSchedule final, last.2) := by
  induction keys generalizing first schedule with
  | nil =>
      subst leads
      exact ⟨schedule, rfl⟩
  | cons key keys ih =>
      rcases leads with ⟨middle, blocks, leads⟩
      rcases calm.press_withSchedule blocks schedule with ⟨between, blocksToo⟩
      have calmMiddle : middle.1.Calm := by
        apply Rests.calm
        apply (calm.responded (respond_responded first.1 key)).rests_of_blocks
        exact (calm.press_blocks_iff key).mp blocks
      rcases ih leads calmMiddle between with ⟨final, leadsToo⟩
      exact ⟨final, _, blocksToo, leadsToo⟩

theorem Leads.unique {keys : List Key} {first left right : Engine Token State × Next}
    (leadsLeft : Leads keys first left) (leadsRight : Leads keys first right) : left = right := by
  induction keys generalizing first with
  | nil => exact leadsLeft.symm.trans leadsRight
  | cons key keys ih =>
      rcases leadsLeft with ⟨middle, blocks, leadsLeft⟩
      rcases leadsRight with ⟨other, blocksToo, leadsRight⟩
      cases blocks.unique blocksToo
      exact ih leadsLeft leadsRight

theorem Drives.unique {engine : Engine Token State} {source : String} {keys : List Key}
    {left right : Engine Token State × Next} (drivesLeft : engine.Drives source keys left)
    (drivesRight : engine.Drives source keys right) : left = right := by
  rcases drivesLeft with ⟨first, blocks, leadsLeft⟩
  rcases drivesRight with ⟨other, blocksToo, leadsRight⟩
  cases blocks.unique blocksToo
  exact leadsLeft.unique leadsRight

/-- A program starts alike under every schedule, if the language does not look at the schedule. -/
theorem start_withSchedule {engine : Engine Token State}
    (steady : ∀ options stepBudget timeSlice,
      engine.language.initial { options with stepBudget, timeSlice } =
        engine.language.initial options) (schedule : Schedule) (source : String) :
    ((engine.withSchedule schedule).start source).1 =
      (engine.start source).1.withSchedule { schedule with slices := 0 } := by
  have sameLanguage : (engine.withSchedule schedule).language = engine.language := rfl
  have sameRun (program : Program Token) :
      (engine.withSchedule schedule).runFrom program = engine.runFrom program :=
    congrArg (Run.mk program.rewind) (steady engine.options _ _)
  have unnoticed : Unnoticed fun engine : Engine Token State =>
      engine.withSchedule { schedule with slices := 0 } := unnoticed_withSchedule _
  have sameWiped : (engine.withSchedule schedule).wiped =
      engine.wiped.withSchedule { schedule with slices := 0 } :=
    unnoticed.updateConsole
      { engine with
        cancelRequested := false
        statistics := {}
        random := engine.options.randomStream engine.random } Console.wipe
  rw [start_eq, start_eq, sameLanguage, sameWiped]
  cases engine.language.read source with
  | ok program => simp only [sameRun, unnoticed.enter]
  | error error => simp only [unnoticed.fail]

theorem Calm.start {engine : Engine Token State} (calm : engine.Calm) (source : String) :
    (engine.start source).1.Calm := by
  have wiped : engine.wiped.Calm := by
    apply Calm.updateConsole
    exact calm.of_eq rfl rfl calm.published
  rw [start_eq]
  cases engine.language.read source with
  | ok program =>
      simp only
      exact wiped.enter _
  | error error =>
      simp only
      exact wiped.fail _

theorem Drives.withSchedule {engine : Engine Token State} {source : String} {keys : List Key}
    {point : Engine Token State × Next} (drives : engine.Drives source keys point)
    (calm : engine.Calm)
    (steady : ∀ options stepBudget timeSlice,
      engine.language.initial { options with stepBudget, timeSlice } =
        engine.language.initial options) (schedule : Schedule) :
    ∃ final, (engine.withSchedule schedule).Drives source keys
      (point.1.withSchedule final, point.2) := by
  rcases drives with ⟨first, blocks, leads⟩
  have calmFirst : first.1.Calm := ((calm.start source).rests_of_blocks blocks).calm
  rcases blocks.withSchedule { schedule with slices := 0 } with ⟨between, blocksToo⟩
  rcases leads.withSchedule calmFirst between with ⟨final, leadsToo⟩
  refine ⟨final, _, ?_, leadsToo⟩
  rw [start_withSchedule steady]
  exact blocksToo

theorem calm_create (dialect : Dialect) (options : Options) (random : RandomStream)
    (chosen : List Event → String → Bool) (clock : Clock) :
    (create dialect.language options random (.onTexts chosen) clock).Calm where
  tame := dialect.tame_execute
  watches := ⟨chosen, rfl⟩
  published := rfl

/-- Two blocking points agree on all that a host can see, but for the number of slices. -/
structure Agree (left right : Engine Token State × Next) : Prop where
  next : left.2 = right.2
  status : left.1.status = right.1.status
  events : left.1.events = right.1.events
  output : left.1.output = right.1.output
  echo : left.1.console.echo = right.1.console.echo
  error : left.1.error? = right.1.error?
  cancelRequested : left.1.cancelRequested = right.1.cancelRequested
  counter : left.1.phase.run?.map (·.program.counter) = right.1.phase.run?.map (·.program.counter)
  state : left.1.phase.run?.map (·.state) = right.1.phase.run?.map (·.state)
  instructions : left.1.statistics.instructions = right.1.statistics.instructions

theorem agree_withSchedule (point : Engine Token State × Next) (schedule : Schedule) :
    Agree point (point.1.withSchedule schedule, point.2) := by
  constructor <;> rfl

/--
Budget and clock have no influence on what a driven engine does: one of two engines that differ in
nothing else reaches the blocking point behind the keys exactly if the other one does, and there
they agree.
-/
theorem scheduling_independence (dialect : Dialect) (options : Options) (random : RandomStream)
    (chosen : List Event → String → Bool) (leftBudget leftTime rightBudget rightTime : Nat)
    (leftClock rightClock : Clock) (source : String) (keys : List Key) :
    let left := create dialect.language
      { options with stepBudget := leftBudget, timeSlice := leftTime } random (.onTexts chosen)
      leftClock
    let right := create dialect.language
      { options with stepBudget := rightBudget, timeSlice := rightTime } random (.onTexts chosen)
      rightClock
    ((∃ point, left.Drives source keys point) ↔ ∃ point, right.Drives source keys point) ∧
      ∀ leftPoint rightPoint, left.Drives source keys leftPoint →
        right.Drives source keys rightPoint → Agree leftPoint rightPoint := by
  intro left right
  have toRight {point} (drives : left.Drives source keys point) :
      ∃ final, right.Drives source keys (point.1.withSchedule final, point.2) :=
    drives.withSchedule (calm_create dialect _ random chosen leftClock) dialect.initial_eq
      right.schedule
  have toLeft {point} (drives : right.Drives source keys point) :
      ∃ final, left.Drives source keys (point.1.withSchedule final, point.2) :=
    drives.withSchedule (calm_create dialect _ random chosen rightClock) dialect.initial_eq
      left.schedule
  refine ⟨⟨?_, ?_⟩, ?_⟩
  · rintro ⟨point, drives⟩
    rcases toRight drives with ⟨final, drivesToo⟩
    exact ⟨_, drivesToo⟩
  · rintro ⟨point, drives⟩
    rcases toLeft drives with ⟨final, drivesToo⟩
    exact ⟨_, drivesToo⟩
  · intro leftPoint rightPoint drivesLeft drivesRight
    rcases toRight drivesLeft with ⟨final, drivesToo⟩
    rw [drivesRight.unique drivesToo]
    exact agree_withSchedule leftPoint final

end Engine

end Esoterica
