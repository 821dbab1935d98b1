import Esoterica.Proofs.Engine.Chronicle

/-!
# What an engine keeps from its creation

An engine is created with a language, options, an observer and a clock, and nothing that it does
changes them. The memory of its observer changes with every event, but only if the observer
remembers events at all.
-/

namespace Esoterica

/-- The observer remembers no event. -/
def Observer.Forgetful (observer : Observer) : Prop :=
  ∀ memory event, observer.remembers memory event = memory

namespace Engine

variable {Token State : Type} {first engine after : Engine Token State}

/-- What an engine was created with, but for the random stream. -/
def settings (engine : Engine Token State) :
    Language Token State × Options × Observer × Clock :=
  (engine.language, engine.options, engine.observer, engine.clock)

/-- The second engine has what the first one was created with. -/
structure Kin (first engine : Engine Token State) : Prop where
  settings_eq : engine.settings = first.settings
  memory_eq : first.observer.Forgetful → engine.memory = first.memory

namespace Kin

theorem refl (engine : Engine Token State) : engine.Kin engine :=
  ⟨rfl, fun _ => rfl⟩

/-- What is neither a setting nor the memory does not matter. -/
theorem of_eq (kin : first.Kin engine) (sameSettings : after.settings = engine.settings)
    (sameMemory : after.memory = engine.memory) : first.Kin after where
  settings_eq := sameSettings.trans kin.settings_eq
  memory_eq forgetful := sameMemory.trans (kin.memory_eq forgetful)

theorem emit (kin : first.Kin engine) (events : List Event) : first.Kin (engine.emit events) where
  settings_eq := kin.settings_eq
  memory_eq forgetful := by
    have sameObserver : engine.observer = first.observer := congrArg (·.2.2.1) kin.settings_eq
    have unchanged : events.foldl engine.observer.remembers engine.memory = engine.memory := by
      induction events with
      | nil => rfl
      | cons event rest ih => rw [List.foldl_cons, sameObserver, forgetful, ← sameObserver, ih]
    exact unchanged.trans (kin.memory_eq forgetful)

theorem publish (kin : first.Kin engine) : first.Kin engine.publish := by
  rw [publish_eq]
  apply Kin.emit
  exact kin.of_eq rfl rfl

theorem updateConsole (kin : first.Kin engine) (change : Console → Console) :
    first.Kin (engine.updateConsole change) := by
  apply Kin.publish
  exact kin.of_eq rfl rfl

theorem enter (kin : first.Kin engine) (phase : Phase Token State) :
    first.Kin (engine.enter phase) := by
  rw [enter_eq]
  apply Kin.emit
  exact kin.of_eq rfl rfl

theorem fail (kin : first.Kin engine) (failure : Failure) : first.Kin (engine.fail failure) := by
  unfold Engine.fail
  rw [report_eq]
  exact ((kin.updateConsole Console.dropEcho).emit _).enter _

theorem cancel (kin : first.Kin engine) : first.Kin engine.cancel := by
  unfold Engine.cancel
  simp only
  split
  · apply Kin.enter
    apply Kin.updateConsole
    exact kin.of_eq rfl rfl
  · exact kin.of_eq rfl rfl

theorem adopt (kin : first.Kin engine) (machine : Machine Token State) :
    first.Kin (engine.adopt machine) := by
  apply Kin.publish
  exact kin.of_eq rfl rfl

theorem start (kin : first.Kin engine) (source : String) : first.Kin (engine.start source).1 := by
  have wiped : first.Kin engine.wiped := by
    apply Kin.updateConsole
    exact kin.of_eq rfl rfl
  rw [start_eq]
  cases engine.language.read source with
  | ok program =>
      simp only
      exact wiped.enter _
  | error error =>
      simp only
      exact wiped.fail _

theorem ticked {run : Run Token State} {result : Engine Token State × Option Next}
    (kin : first.Kin engine) (ticked : Ticked engine run result) : first.Kin result.1 := by
  cases ticked with
  | finished => exact kin.enter _
  | unfinished => exact kin.fail _
  | proceeded | yielded => exact kin.adopt _
  | asked | halted => exact (kin.adopt _).enter _
  | failed => exact (kin.adopt _).fail _

theorem responded {key : Key} {response : Engine Token State × Bool} (kin : first.Kin engine)
    (responded : Responded engine key response) : first.Kin response.1 := by
  cases responded with
  | cancelled => exact kin.cancel
  | ignored => exact kin
  | edited =>
      apply Kin.publish
      exact kin.of_eq rfl rfl
  | accepted =>
      apply Kin.enter
      apply Kin.publish
      exact kin.of_eq rfl rfl
  | refused =>
      apply Kin.fail
      apply Kin.publish
      exact kin.of_eq rfl rfl

theorem does {acts : List (Act Token)} (kin : first.Kin engine) (does : engine.Does acts after) :
    first.Kin after := by
  cases does with
  | start source => exact kin.start source
  | execute running | conclude running => exact kin.ticked (tick_ticked running)
  | answer => exact kin.responded (respond_responded engine _)
  | edit =>
      apply Kin.publish
      exact kin.of_eq rfl rfl
  | cancel => exact kin.cancel
  | countSlice | requestCancel => exact kin.of_eq rfl rfl
  | clearOutput => exact kin.updateConsole Console.clear

end Kin

/-- Whatever is done to an engine, it keeps what it was created with. -/
theorem Chronicle.kin {acts : List (Act Token)} (chronicle : first.Chronicle acts engine) :
    first.Kin engine := by
  induction chronicle with
  | nil => exact .refl first
  | snoc chronicle does ih => exact ih.does does

theorem History.kin {calls : List Call} {answers : List Answer}
    (history : first.History calls answers engine) : first.Kin engine := by
  rcases history.exists_chronicle with ⟨acts, chronicle, _⟩
  exact chronicle.kin

end Engine

end Esoterica
