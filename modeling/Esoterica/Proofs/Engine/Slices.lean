import Esoterica.Proofs.Engine.Unnoticed

/-!
# Slices do not matter

Budget and clock decide after which instructions a slice ends, and nothing else. `Settles` runs an
engine to the point where it calls for no further slice without ever looking at them: a
cancellation is carried out before the next token, whichever slice that token belongs to. Asking for
slices until the engine is blocked reaches the same point, whatever the schedule.
-/

namespace Esoterica

namespace Status

theorem next_ne_slice_iff {status : Status} : status.next ≠ .slice ↔ status ≠ .running := by
  cases status <;> simp [next]

end Status

/-- What decides how a run is cut into slices, and the number of slices so far. -/
structure Schedule where
  stepBudget : Nat
  timeSlice : Nat
  clock : Clock
  slices : Nat

namespace Engine

variable {Token State : Type}

def schedule (engine : Engine Token State) : Schedule where
  stepBudget := engine.options.stepBudget
  timeSlice := engine.options.timeSlice
  clock := engine.clock
  slices := engine.statistics.slices

/-- The same engine with another schedule. -/
def withSchedule (engine : Engine Token State) (schedule : Schedule) : Engine Token State :=
  { engine with
    options :=
      { engine.options with
        stepBudget := schedule.stepBudget
        timeSlice := schedule.timeSlice }
    clock := schedule.clock
    statistics := { engine.statistics with slices := schedule.slices } }

theorem withSchedule_self (engine : Engine Token State) :
    engine.withSchedule engine.schedule = engine :=
  rfl

/-- Nothing but the length of slices depends on the schedule. -/
theorem unnoticed_withSchedule (schedule : Schedule) :
    Unnoticed fun engine : Engine Token State => engine.withSchedule schedule where
  language_eq _ := rfl
  console_eq _ := rfl
  random_eq _ := rfl
  phase_eq _ := rfl
  cancelRequested_eq _ := rfl
  emit _ _ := rfl
  unrequest _ := rfl
  withPhase _ _ := rfl
  withConsole _ _ := rfl
  countInstruction _ _ := rfl

/-! ### The ends of slices -/

/-- The engine with one more slice counted. -/
def countSlice (engine : Engine Token State) : Engine Token State :=
  { engine with
    statistics := { engine.statistics with slices := engine.statistics.slices + 1 } }

theorem cancel_status_ne_running (engine : Engine Token State) :
    engine.cancel.status ≠ .running := by
  unfold cancel
  simp only
  split
  · simp [Phase.status]
  · rename_i inactive
    intro running
    apply inactive
    rw [running]
    rfl

theorem ticks_of_requested {engine : Engine Token State} (requested : engine.cancelRequested = true)
    (remaining : Nat) : engine.ticks remaining = engine.cancel.withNext := by
  unfold ticks
  rw [if_pos requested]

theorem ticks_of_stop {engine after : Engine Token State} {next : Next}
    (unrequested : engine.cancelRequested = false) (stops : engine.tick = (after, some next))
    (remaining : Nat) : engine.ticks remaining = (after, next) := by
  unfold ticks
  simp [unrequested, stops]

/-- After a token that does not end the slice, it goes on if tokens and time are left. -/
theorem ticks_eq_of_proceed {engine after : Engine Token State}
    (unrequested : engine.cancelRequested = false) (proceeds : engine.tick = (after, none))
    (remaining : Nat) :
    engine.ticks remaining =
      if remaining = 0 ∨ after.options.timeSlice ≤ after.clock after.statistics.instructions then
        (after, .slice)
      else
        after.ticks (remaining - 1) := by
  rw [ticks]
  cases remaining with
  | zero => simp [unrequested, proceeds]
  | succ fewer => simp [unrequested, proceeds]

theorem ticks_of_proceed {engine after : Engine Token State}
    (unrequested : engine.cancelRequested = false) (proceeds : engine.tick = (after, none))
    (remaining : Nat) :
    engine.ticks remaining = (after, .slice) ∨
      ∃ fewer, fewer < remaining ∧
        after.clock after.statistics.instructions < after.options.timeSlice ∧
        engine.ticks remaining = after.ticks fewer := by
  rw [ticks_eq_of_proceed unrequested proceeds]
  split
  · exact Or.inl rfl
  · right
    exact ⟨remaining - 1, by omega, by omega, rfl⟩

theorem slice_of_requested {engine : Engine Token State}
    (requested : engine.cancelRequested = true) : engine.slice = engine.cancel.withNext := by
  unfold slice
  rw [if_pos requested]

theorem slice_of_running {engine : Engine Token State}
    (unrequested : engine.cancelRequested = false) (running : engine.status = .running) :
    engine.slice = engine.countSlice.ticks (engine.options.stepBudget - 1) := by
  unfold slice
  simp [unrequested, running, countSlice]

theorem slice_of_not_running {engine : Engine Token State}
    (unrequested : engine.cancelRequested = false) (stands : engine.status ≠ .running) :
    engine.slice = engine.withNext := by
  unfold slice
  simp [unrequested, stands]

/-! ### Blocking points -/

/-- Slices are asked for until the engine calls for none, and then the engine is at the point. -/
def Blocks (engine : Engine Token State) (point : Engine Token State × Next) : Prop :=
  ∃ fuel, slices fuel engine = some point

theorem slices_succ (fuel : Nat) (engine : Engine Token State) :
    slices (fuel + 1) engine =
      if engine.slice.2 = .slice then slices fuel engine.slice.1 else some engine.slice := by
  rw [slices]
  rcases engine.slice with ⟨after, next⟩
  cases next <;> rfl

/-- A slice that ended leads to the point: it is the point, or another slice is asked for. -/
def LeadsTo (sliced point : Engine Token State × Next) : Prop :=
  sliced.2 ≠ .slice ∧ sliced = point ∨ sliced.2 = .slice ∧ sliced.1.Blocks point

theorem blocks_iff {engine : Engine Token State} {point : Engine Token State × Next} :
    engine.Blocks point ↔ LeadsTo engine.slice point := by
  constructor
  · rintro ⟨fuel, reached⟩
    cases fuel with
    | zero => cases reached
    | succ fuel =>
        rw [slices_succ] at reached
        split at reached
        · exact Or.inr ⟨‹_›, fuel, reached⟩
        · exact Or.inl ⟨‹_›, Option.some.inj reached⟩
  · rintro (⟨final, sliced⟩ | ⟨called, fuel, reached⟩)
    · refine ⟨1, ?_⟩
      rw [slices_succ, if_neg final, sliced]
    · refine ⟨fuel + 1, ?_⟩
      rw [slices_succ, if_pos called, reached]

/-- What holds at the end of a last slice, and before a slice if behind it, holds when blocked. -/
theorem Blocks.induction {motive : Engine Token State → Engine Token State × Next → Prop}
    (last : ∀ engine, engine.slice.2 ≠ .slice → motive engine engine.slice)
    (earlier : ∀ engine point, engine.slice.2 = .slice → motive engine.slice.1 point →
      motive engine point)
    {engine : Engine Token State} {point : Engine Token State × Next}
    (blocks : engine.Blocks point) : motive engine point := by
  rcases blocks with ⟨fuel, reached⟩
  induction fuel generalizing engine with
  | zero => cases reached
  | succ fuel ih =>
      rw [slices_succ] at reached
      split at reached
      · exact earlier engine point ‹_› (ih reached)
      · rw [← Option.some.inj reached]
        exact last engine ‹_›

theorem Blocks.unique {engine : Engine Token State} {left right : Engine Token State × Next}
    (blocksLeft : engine.Blocks left) (blocksRight : engine.Blocks right) : left = right := by
  revert blocksRight
  apply Blocks.induction (motive := fun engine left => engine.Blocks right → left = right) _ _
    blocksLeft
  · intro engine final blocksRight
    rcases blocks_iff.mp blocksRight with ⟨_, sliced⟩ | ⟨called, _⟩
    · exact sliced
    · exact absurd called final
  · intro engine left called ih blocksRight
    rcases blocks_iff.mp blocksRight with ⟨final, _⟩ | ⟨_, blocks⟩
    · exact absurd called final
    · exact ih blocks

/-! ### Runs without slices -/

/-- The engine runs on to the point where it calls for no slice, whatever its slices are. -/
inductive Settles : Engine Token State → Engine Token State × Next → Prop where
  | cancelled {engine : Engine Token State} (requested : engine.cancelRequested = true) :
      Settles engine engine.cancel.withNext
  | stands {engine : Engine Token State} (unrequested : engine.cancelRequested = false)
      (stands : engine.status ≠ .running) : Settles engine engine.withNext
  | stops {engine after : Engine Token State} {next : Next}
      (unrequested : engine.cancelRequested = false) (running : engine.status = .running)
      (ticks : engine.tick = (after, some next)) (final : next ≠ .slice) :
      Settles engine (after, next)
  | goesOn {engine after : Engine Token State} {next? : Option Next}
      {point : Engine Token State × Next} (unrequested : engine.cancelRequested = false)
      (running : engine.status = .running) (ticks : engine.tick = (after, next?))
      (onward : next? = none ∨ next? = some .slice) (settles : Settles after point) :
      Settles engine point

/-- An engine settles at the same point under every schedule. -/
theorem Settles.withSchedule {engine : Engine Token State} {point : Engine Token State × Next}
    (settles : Settles engine point) (schedule : Schedule) :
    Settles (engine.withSchedule schedule) (point.1.withSchedule schedule, point.2) := by
  induction settles with
  | @cancelled engine requested =>
      have cancelled : Settles (engine.withSchedule schedule)
          (engine.withSchedule schedule).cancel.withNext := .cancelled requested
      rwa [(unnoticed_withSchedule schedule).cancel] at cancelled
  | stands unrequested stands =>
      exact .stands unrequested stands
  | stops unrequested running ticks final =>
      refine .stops unrequested running ?_ final
      rw [(unnoticed_withSchedule schedule).tick, ticks]
  | goesOn unrequested running ticks onward settles ih =>
      refine .goesOn unrequested running ?_ onward ih
      rw [(unnoticed_withSchedule schedule).tick, ticks]

/-- Either a slice ends where the engine settles, or the engine goes on to settle from its end. -/
theorem ticks_settles (engine : Engine Token State) (remaining : Nat) :
    (engine.ticks remaining).2 ≠ .slice ∧ Settles engine (engine.ticks remaining) ∨
      (engine.ticks remaining).2 = .slice ∧
        ∀ point, Settles (engine.ticks remaining).1 point → Settles engine point := by
  induction remaining using Nat.strongRecOn generalizing engine with
  | ind remaining ih =>
      cases requested : engine.cancelRequested with
      | true =>
          left
          rw [ticks_of_requested requested]
          exact ⟨Status.next_ne_slice_iff.mpr engine.cancel_status_ne_running, .cancelled requested⟩
      | false =>
          by_cases running : engine.status = .running
          · rcases ticks : engine.tick with ⟨after, next?⟩
            cases next? with
            | some next =>
                rw [ticks_of_stop requested ticks]
                by_cases final : next = .slice
                · subst final
                  exact Or.inr ⟨rfl, fun point settles =>
                    .goesOn requested running ticks (Or.inr rfl) settles⟩
                · exact Or.inl ⟨final, .stops requested running ticks final⟩
            | none =>
                rcases ticks_of_proceed requested ticks remaining with
                  cut | ⟨fewer, less, _, continues⟩
                · rw [cut]
                  exact Or.inr ⟨rfl, fun point settles =>
                    .goesOn requested running ticks (Or.inl rfl) settles⟩
                · rw [continues]
                  rcases ih fewer less after with ⟨final, settles⟩ | ⟨sliced, onward⟩
                  · exact Or.inl ⟨final, .goesOn requested running ticks (Or.inl rfl) settles⟩
                  · exact Or.inr ⟨sliced, fun point settles =>
                      .goesOn requested running ticks (Or.inl rfl) (onward point settles)⟩
          · left
            rw [ticks_of_stop requested (tick_of_not_running running)]
            exact ⟨Status.next_ne_slice_iff.mpr running, .stands requested running⟩

/-- A slice is a row of tokens under some schedule. -/
theorem slice_eq_ticks (engine : Engine Token State) :
    ∃ schedule remaining, engine.slice = (engine.withSchedule schedule).ticks remaining := by
  cases requested : engine.cancelRequested with
  | true =>
      refine ⟨engine.schedule, 0, ?_⟩
      rw [slice_of_requested requested, withSchedule_self, ticks_of_requested requested]
  | false =>
      by_cases running : engine.status = .running
      · exact ⟨engine.countSlice.schedule, _, slice_of_running requested running⟩
      · refine ⟨engine.schedule, 0, ?_⟩
        rw [slice_of_not_running requested running, withSchedule_self,
          ticks_of_stop requested (tick_of_not_running running)]
        rfl

/-- Where an engine is blocked, it settles, but for the schedule. -/
theorem Blocks.settles {engine : Engine Token State} {point : Engine Token State × Next}
    (blocks : engine.Blocks point) :
    Settles engine (point.1.withSchedule engine.schedule, point.2) := by
  apply Blocks.induction
    (motive := fun engine point =>
      Settles engine (point.1.withSchedule engine.schedule, point.2)) _ _ blocks
  · intro engine final
    rcases slice_eq_ticks engine with ⟨schedule, remaining, sliced⟩
    rcases ticks_settles (engine.withSchedule schedule) remaining with ⟨_, settles⟩ | ⟨called, _⟩
    · rw [sliced]
      exact settles.withSchedule engine.schedule
    · rw [sliced] at final
      exact absurd called final
  · intro engine point called ih
    rcases slice_eq_ticks engine with ⟨schedule, remaining, sliced⟩
    rcases ticks_settles (engine.withSchedule schedule) remaining with ⟨final, _⟩ | ⟨_, onward⟩
    · rw [sliced] at called
      exact absurd called final
    · rw [sliced] at ih
      exact (onward _ ih).withSchedule engine.schedule

/-- If every slice leads to the point however it is cut, the engine is blocked there. -/
theorem blocks_of_leadsTo {engine : Engine Token State} {point : Engine Token State × Next}
    (leads : ∀ schedule remaining, ∃ final,
      LeadsTo ((engine.withSchedule schedule).ticks remaining)
        (point.1.withSchedule final, point.2)) (schedule : Schedule) :
    ∃ final, (engine.withSchedule schedule).Blocks (point.1.withSchedule final, point.2) := by
  rcases slice_eq_ticks (engine.withSchedule schedule) with ⟨cut, remaining, sliced⟩
  rcases leads cut remaining with ⟨final, leads⟩
  refine ⟨final, blocks_iff.mpr ?_⟩
  rw [sliced]
  exact leads

/-- Every slice that begins where an engine settles leads to that point, however it is cut. -/
theorem Settles.leadsTo {engine : Engine Token State} {point : Engine Token State × Next}
    (settles : Settles engine point) (schedule : Schedule) (remaining : Nat) :
    ∃ final, LeadsTo ((engine.withSchedule schedule).ticks remaining)
      (point.1.withSchedule final, point.2) := by
  induction settles generalizing schedule remaining with
  | @cancelled engine requested =>
      have requested : (engine.withSchedule schedule).cancelRequested = true := requested
      refine ⟨schedule, Or.inl ?_⟩
      rw [ticks_of_requested requested, (unnoticed_withSchedule schedule).cancel]
      exact ⟨Status.next_ne_slice_iff.mpr engine.cancel_status_ne_running, rfl⟩
  | @stands engine unrequested stands =>
      have unrequested : (engine.withSchedule schedule).cancelRequested = false := unrequested
      have stands : (engine.withSchedule schedule).status ≠ .running := stands
      refine ⟨schedule, Or.inl ?_⟩
      rw [ticks_of_stop unrequested (tick_of_not_running stands)]
      exact ⟨Status.next_ne_slice_iff.mpr stands, rfl⟩
  | @stops engine after next unrequested running ticks final =>
      have unrequested : (engine.withSchedule schedule).cancelRequested = false := unrequested
      have ticks : (engine.withSchedule schedule).tick =
          (after.withSchedule schedule, some next) := by
        rw [(unnoticed_withSchedule schedule).tick, ticks]
      refine ⟨schedule, Or.inl ?_⟩
      rw [ticks_of_stop unrequested ticks]
      exact ⟨final, rfl⟩
  | @goesOn engine after next? point unrequested running ticks onward settles ih =>
      have unrequested : (engine.withSchedule schedule).cancelRequested = false := unrequested
      have ticks : (engine.withSchedule schedule).tick = (after.withSchedule schedule, next?) := by
        rw [(unnoticed_withSchedule schedule).tick, ticks]
      -- Where the slice is cut behind this token, the next one begins.
      have cutHere : ∃ final, LeadsTo (after.withSchedule schedule, .slice)
          (point.1.withSchedule final, point.2) := by
        rcases blocks_of_leadsTo ih schedule with ⟨final, blocks⟩
        exact ⟨final, Or.inr ⟨rfl, blocks⟩⟩
      rcases onward with rfl | rfl
      · rcases ticks_of_proceed unrequested ticks remaining with cut | ⟨fewer, _, _, continues⟩
        · rw [cut]
          exact cutHere
        · rw [continues]
          exact ih schedule fewer
      · rw [ticks_of_stop unrequested ticks]
        exact cutHere

/-- Where an engine settles, it is blocked under every schedule. -/
theorem Settles.blocks {engine : Engine Token State} {point : Engine Token State × Next}
    (settles : Settles engine point) (schedule : Schedule) :
    ∃ final, (engine.withSchedule schedule).Blocks (point.1.withSchedule final, point.2) :=
  blocks_of_leadsTo settles.leadsTo schedule

/-- Another schedule changes nothing about a blocking point but the schedule. -/
theorem Blocks.withSchedule {engine : Engine Token State} {point : Engine Token State × Next}
    (blocks : engine.Blocks point) (schedule : Schedule) :
    ∃ final, (engine.withSchedule schedule).Blocks (point.1.withSchedule final, point.2) :=
  blocks.settles.blocks schedule

end Engine

end Esoterica
