import Esoterica.Proofs.Engine.Slices

/-!
# Histories of calls

A host makes calls of an engine, one after the other. What holds of every engine that a history of
calls leads to is proved for the few things that an engine can do on its own: carry out a
cancellation, count a slice and execute the next token of its run.
-/

namespace Esoterica

/-- The calls that a host can make. -/
inductive Call where
  | start (source : String)
  | slice
  /-- Calls for slices until the engine asks for none. -/
  | untilBlocked
  | press (key : Key)
  | cancel
  | requestCancel
  | clearOutput

namespace Call

/-- Whether the call carries on the run: it starts none, and neither cancels nor clears. -/
def carriesOn : Call → Bool
  | slice | untilBlocked | press _ => true
  | start _ | cancel | requestCancel | clearOutput => false

end Call

namespace Engine

variable {Token State : Type}

/-- How a call that comes to an end leaves an engine. -/
inductive Makes (engine : Engine Token State) : Call → Engine Token State → Prop where
  | start (source : String) : Makes engine (.start source) (engine.start source).1
  | slice : Makes engine .slice engine.slice.1
  | untilBlocked {point : Engine Token State × Next} (blocks : engine.Blocks point) :
      Makes engine .untilBlocked point.1
  | press (key : Key) : Makes engine (.press key) (engine.press key).1
  | cancel : Makes engine .cancel engine.cancel
  | requestCancel : Makes engine .requestCancel engine.requestCancel
  | clearOutput : Makes engine .clearOutput engine.clearOutput

/-- The answer that a call commits, if it commits one. -/
def answerOf (engine : Engine Token State) : Call → List Answer
  | .press key => (engine.committed? key).toList
  | .start _ | .slice | .untilBlocked | .cancel | .requestCancel | .clearOutput => []

/-- Calls that lead from one engine to another, and the answers committed by them. -/
inductive History (first : Engine Token State) :
    List Call → List Answer → Engine Token State → Prop where
  | nil : History first [] [] first
  | snoc {calls : List Call} {answers : List Answer} {before after : Engine Token State}
      {call : Call} (history : History first calls answers before)
      (makes : before.Makes call after) :
      History first (calls ++ [call]) (answers ++ before.answerOf call) after

/-- A property that holds on after everything that happens in a slice. -/
structure KeptBySlices (holds : Engine Token State → Prop) : Prop where
  cancel : ∀ engine, holds engine → holds engine.cancel
  countSlice : ∀ engine, holds engine → holds engine.countSlice
  ticked : ∀ engine run result, engine.phase = .running run → engine.cancelRequested = false →
    Ticked engine run result → holds engine → holds result.1

namespace KeptBySlices

variable {holds : Engine Token State → Prop}

theorem ticks (kept : KeptBySlices holds) {engine : Engine Token State} (remaining : Nat)
    (before : holds engine) : holds (engine.ticks remaining).1 := by
  induction remaining using Nat.strongRecOn generalizing engine with
  | ind remaining ih =>
      cases requested : engine.cancelRequested with
      | true =>
          rw [ticks_of_requested requested]
          exact kept.cancel engine before
      | false =>
          by_cases running : engine.status = .running
          · rcases Phase.status_eq_running_iff.mp running with ⟨run, phase⟩
            have after : holds engine.tick.1 :=
              kept.ticked engine run engine.tick phase requested (tick_ticked phase) before
            rcases ticks : engine.tick with ⟨ticked, next?⟩
            rw [ticks] at after
            cases next? with
            | some next =>
                rw [ticks_of_stop requested ticks]
                exact after
            | none =>
                rcases ticks_of_proceed requested ticks remaining with
                  cut | ⟨fewer, less, _, continues⟩
                · rw [cut]
                  exact after
                · rw [continues]
                  exact ih fewer less after
          · rw [ticks_of_stop requested (tick_of_not_running running)]
            exact before

theorem slice (kept : KeptBySlices holds) {engine : Engine Token State} (before : holds engine) :
    holds engine.slice.1 := by
  cases requested : engine.cancelRequested with
  | true =>
      rw [slice_of_requested requested]
      exact kept.cancel engine before
  | false =>
      by_cases running : engine.status = .running
      · rw [slice_of_running requested running]
        exact kept.ticks _ (kept.countSlice engine before)
      · rw [slice_of_not_running requested running]
        exact before

theorem blocks (kept : KeptBySlices holds) {engine : Engine Token State}
    {point : Engine Token State × Next} (blocks : engine.Blocks point) (before : holds engine) :
    holds point.1 := by
  revert before
  apply Blocks.induction (motive := fun engine point => holds engine → holds point.1) _ _ blocks
  · intro engine _ before
    exact kept.slice before
  · intro engine point _ ih before
    exact ih (kept.slice before)

/-- What a key does and the slice that may follow keep a property. -/
theorem press (kept : KeptBySlices holds) {engine : Engine Token State} {key : Key}
    (response : holds (engine.respond key).1) : holds (engine.press key).1 := by
  rw [press_eq]
  unfold follow
  split
  · exact kept.slice response
  · exact response

end KeptBySlices

/-- What slices and keys keep, given the answers so far, holds after calls that carry on a run. -/
theorem History.carry {start after : Engine Token State} {calls : List Call}
    {answers : List Answer} {holds : List Answer → Engine Token State → Prop}
    (slices : ∀ answers, KeptBySlices (holds answers))
    (keys : ∀ answers engine key, holds answers engine →
      holds (answers ++ (engine.committed? key).toList) (engine.respond key).1)
    (history : start.History calls answers after)
    (carryOn : ∀ call ∈ calls, call.carriesOn = true) (holdsStart : holds [] start) :
    holds answers after := by
  induction history with
  | nil => exact holdsStart
  | @snoc calls answers before after call history makes ih =>
      rcases List.forall_mem_append.mp carryOn with ⟨carryOn, carriesOn⟩
      have carriesOn := carriesOn call (by simp)
      have held := ih carryOn
      cases makes with
      | slice =>
          rw [answerOf, List.append_nil]
          exact (slices answers).slice held
      | untilBlocked blocks =>
          rw [answerOf, List.append_nil]
          exact (slices answers).blocks blocks held
      | press key => exact (slices _).press (keys answers before key held)
      | start | cancel | requestCancel | clearOutput => cases carriesOn

theorem exists_history_typing (fresh : Engine Token State) (source : String) (first second : Key) :
    ∃ answers, fresh.History [.start source, .slice, .press first, .press second] answers
      (((fresh.start source).1.slice.1.press first).1.press second).1 :=
  ⟨_, (((History.nil.snoc (.start source)).snoc .slice).snoc (.press first)).snoc (.press second)⟩

end Engine

end Esoterica
