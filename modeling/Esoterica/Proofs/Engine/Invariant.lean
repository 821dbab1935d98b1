import Esoterica.Proofs.Engine.Conduct

/-!
# Invariants of a run

A conduct has to be kept to whatever is answered. What is said here of a run may depend on its
program and on the answers that are committed to it: it holds at the start, every token keeps it,
and so does every answer that is allowed. Then it holds until another program is started, as long as
no other answers are committed.
-/

namespace Esoterica

/-- The entry is a character or what the line says. -/
inductive Answer.Faithful (answer : Answer) : Prop where
  | char (c : Char) (entry_eq : answer.entry = .char c)
  | line (form : LineForm) (entry_eq : answer.entry = form.entry answer.line)

theorem Prompt.faithful_of_committed {prompt : Prompt} {key : Key} {console : Console}
    {entry : Entry} (commits : (prompt.press key console).1 = .committed entry) :
    Answer.Faithful { entry, line := prompt.request.lineIn console } := by
  cases asks : prompt.request with
  | char =>
      have admits := Prompt.admits_of_committed commits
      rw [asks] at admits
      cases admits with
      | char c => exact .char c rfl
  | line form =>
      rw [eq_enter_of_committed asks commits] at commits
      simp only [press, asks, pressLine, Reaction.committed.injEq] at commits
      exact .line form commits.symm

/-- Tokens keep a property of runs, whether they fail or not, and so do answers that are allowed. -/
structure Language.Preserves {Token State : Type} (language : Language Token State)
    (allowed : Answer → Prop) (holds : Run Token State → Prop) : Prop where
  perform : ∀ (machine : Machine Token State) token, holds (Engine.runOf machine) →
    machine.program.current? = some token →
      holds (Engine.runOf (language.perform token machine.behind).2)
  receive : ∀ run answer state, holds run → answer.Faithful → allowed answer →
    language.receive answer.entry run.state = .ok state → holds { run with state }

namespace Engine

variable {Token State : Type} {language : Language Token State} {allowed : Answer → Prop}
  {holds : Run Token State → Prop} {engine after : Engine Token State} {acts : List (Act Token)}

/-- The run, if there is one, has the property, and its language is the given one. -/
structure Sustains (language : Language Token State) (holds : Run Token State → Prop)
    (engine : Engine Token State) : Prop where
  language_eq : engine.language = language
  holds : ∀ run, engine.phase.run? = some run → holds run

/-- Only answers that are allowed are committed. -/
def AllAllowed (allowed : Answer → Prop) (acts : List (Act Token)) : Prop :=
  ∀ answer result, .answered answer result ∈ acts → allowed answer

namespace Sustains

theorem of_phase (sustains : Sustains language holds engine)
    (sameLanguage : after.language = engine.language) (samePhase : after.phase = engine.phase) :
    Sustains language holds after := by
  refine ⟨sameLanguage.trans sustains.language_eq, ?_⟩
  rw [samePhase]
  exact sustains.holds

/-- An engine that goes on with a run has to account for this run only. -/
theorem carried {run : Run Token State} (sustains : Sustains language holds engine)
    (sameLanguage : after.language = engine.language) (carries : after.phase.run? = some run)
    (isHeld : holds run) : Sustains language holds after := by
  refine ⟨sameLanguage.trans sustains.language_eq, ?_⟩
  intro other active
  cases carries.symm.trans active
  exact isHeld

theorem ended (sustains : Sustains language holds engine)
    (sameLanguage : after.language = engine.language) (ends : after.phase.run? = none) :
    Sustains language holds after := by
  refine ⟨sameLanguage.trans sustains.language_eq, ?_⟩
  intro run active
  cases ends.symm.trans active

theorem attempt {run : Run Token State} {token : Token} (sustains : Sustains language holds engine)
    (preserves : language.Preserves allowed holds) (running : engine.phase = .running run)
    (current : run.program.current? = some token) : holds (runOf (engine.attempt run token).2) := by
  have isHeld : holds run := sustains.holds run (by rw [running]; rfl)
  have kept := preserves.perform (engine.machineAt run.program run.state) token isHeld current
  rw [← sustains.language_eq] at kept
  exact kept

theorem tick {run : Run Token State} (sustains : Sustains language holds engine)
    (preserves : language.Preserves allowed holds) (running : engine.phase = .running run) :
    Sustains language holds engine.tick.1 := by
  have kept {token : Token} (current : run.program.current? = some token) :
      holds (runOf (engine.attempt run token).2) := sustains.attempt preserves running current
  have ticked := tick_ticked running
  generalize engine.tick = result at ticked ⊢
  cases ticked with
  | finished | unfinished | halted | failed => exact sustains.ended (by simp) (by simp [Phase.run?])
  | proceeded current attempts | yielded current attempts | asked current attempts =>
      have isHeld := kept current
      rw [attempts] at isHeld
      exact sustains.carried (by simp) (by simp [Phase.run?]) isHeld

theorem answer {run : Run Token State} {prompt : Prompt} {key : Key} {answer : Answer}
    (sustains : Sustains language holds engine) (preserves : language.Preserves allowed holds)
    (suspended : engine.phase = .suspended run prompt)
    (commits : engine.committed? key = some answer) (isAllowed : allowed answer) :
    Sustains language holds (engine.respond key).1 := by
  have isHeld : holds run := sustains.holds run (by rw [suspended]; rfl)
  rcases press_of_commits suspended commits with ⟨presses, isLine⟩
  have faithful : answer.Faithful := by
    have faithful := Prompt.faithful_of_committed presses
    rwa [← isLine] at faithful
  rcases respond_of_commits suspended commits with
    ⟨state, receives, responds⟩ | ⟨fault, refuses, responds⟩
  · rw [responds]
    rw [sustains.language_eq] at receives
    have received := preserves.receive run answer state isHeld faithful isAllowed receives
    exact sustains.carried (by simp) (by simp [Phase.run?]) received
  · rw [responds]
    exact sustains.ended (by simp) (by simp [Phase.run?])

/-- Everything that an engine does but to start another program keeps what its run keeps. -/
theorem does (sustains : Sustains language holds engine)
    (preserves : language.Preserves allowed holds) (does : engine.Does acts after)
    (noStart : Act.NoStart acts) (allAllowed : AllAllowed allowed acts) :
    Sustains language holds after := by
  cases does with
  | start source => exact absurd (List.mem_singleton.mpr rfl) (noStart source)
  | execute running _ current => exact sustains.tick preserves running
  | conclude running _ atEnd => exact sustains.tick preserves running
  | answer suspended commits =>
      exact sustains.answer preserves suspended commits
        (allAllowed _ _ (List.mem_singleton.mpr rfl))
  | edit suspended _ uncommitted =>
      have isHeld := sustains.holds _ (by rw [suspended]; rfl)
      exact sustains.carried (by simp) (by simp [Phase.run?]) isHeld
  | cancel =>
      cases active : engine.status.isActive with
      | true => exact sustains.ended (by simp) (by simp [cancel_phase, active, Phase.run?])
      | false => exact sustains.of_phase (by simp) (by simp [cancel_phase, active])
  | countSlice | requestCancel => exact sustains.of_phase rfl rfl
  | clearOutput => exact sustains.of_phase (by simp) (by simp)

/-- What a run keeps holds of it until another program is started. -/
theorem chronicle {began : Engine Token State} (sustains : Sustains language holds began)
    (preserves : language.Preserves allowed holds) (chronicle : began.Chronicle acts engine)
    (noStart : Act.NoStart acts) (allAllowed : AllAllowed allowed acts) :
    Sustains language holds engine := by
  induction chronicle with
  | nil => exact sustains
  | snoc chronicle does ih =>
      rcases Act.noStart_append.mp noStart with ⟨noStart, noStartLater⟩
      have allowedBefore := fun answer result mem =>
        allAllowed answer result (List.mem_append_left _ mem)
      have allowedLater := fun answer result mem =>
        allAllowed answer result (List.mem_append_right _ mem)
      exact (ih noStart allowedBefore).does preserves does noStartLater allowedLater

end Sustains

theorem sustains_start {before : Engine Token State} {source : String} {program : Program Token}
    (sameLanguage : before.language = language) (reads : language.read source = .ok program)
    (begins : holds (before.runFrom program)) :
    Sustains language holds (before.start source).1 := by
  have readsToo : before.language.read source = .ok program := by rw [sameLanguage, reads]
  rw [start_eq, readsToo]
  refine ⟨by simpa using sameLanguage, ?_⟩
  intro run active
  rw [enter_phase] at active
  cases active
  exact begins

end Engine

end Esoterica
