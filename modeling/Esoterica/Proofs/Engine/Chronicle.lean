import Esoterica.Proofs.Engine.History

/-!
# Chronicles

A call of an engine comes down to a row of acts: tokens are executed one after the other, an answer
is committed, the program ends, the run is cancelled. A chronicle lists the acts that lead from one
engine to another. Between two acts the engine may be in the middle of a call, so that a chronicle
also tells which token was executed at a point where no host can look.

Before every token the engine looks whether a cancellation was asked for. That this is so in every
call is what `History.exists_chronicle` says: an act that executes a token has it as a condition.
-/

namespace Esoterica

/-- What an engine does to a run. -/
inductive Act (Token : Type) where
  | started (source : String)
  /-- The token at an index was executed. -/
  | executed (index : Nat) (token : Token) (result : Except Fault Flow)
  /-- No token was left, and the program was allowed to end there or not. -/
  | concluded (result : Except Fault Unit)
  /-- An answer was committed, and accepted or refused. -/
  | answered (answer : Answer) (result : Except Fault Unit)
  | cancelled

namespace Act

variable {Token : Type}

def isExecuted : Act Token → Bool
  | executed _ _ _ => true
  | started _ | concluded _ | answered _ _ | cancelled => false

/-- No program was started. -/
def NoStart (acts : List (Act Token)) : Prop :=
  ∀ source, started source ∉ acts

theorem noStart_append {earlier later : List (Act Token)} :
    NoStart (earlier ++ later) ↔ NoStart earlier ∧ NoStart later := by
  simp only [NoStart, List.mem_append, not_or, forall_and]

end Act

namespace Engine

variable {Token State : Type}

/-- The acts by which an engine becomes another one in a single stroke: at most one is of note. -/
inductive Does (engine : Engine Token State) : List (Act Token) → Engine Token State → Prop where
  | start (source : String) : Does engine [.started source] (engine.start source).1
  | execute {run : Run Token State} {token : Token} (running : engine.phase = .running run)
      (unrequested : engine.cancelRequested = false) (current : run.program.current? = some token) :
      Does engine [.executed run.program.counter token (engine.attempt run token).1] engine.tick.1
  | conclude {run : Run Token State} (running : engine.phase = .running run)
      (unrequested : engine.cancelRequested = false) (atEnd : run.program.current? = none) :
      Does engine [.concluded (engine.language.finish run.state)] engine.tick.1
  | answer {run : Run Token State} {prompt : Prompt} {key : Key} {answer : Answer}
      (suspended : engine.phase = .suspended run prompt)
      (commits : engine.committed? key = some answer) :
      Does engine
        [.answered answer ((engine.language.receive answer.entry run.state).map fun _ => ())]
        (engine.respond key).1
  | edit {run : Run Token State} {prompt : Prompt} {key : Key}
      (suspended : engine.phase = .suspended run prompt)
      (unrequested : engine.cancelRequested = false)
      (uncommitted : engine.committed? key = none) :
      Does engine []
        (publish
          { engine with
            console := (prompt.press key engine.console).2.2
            phase := .suspended run (prompt.press key engine.console).2.1 })
  | cancel : Does engine (if engine.status.isActive then [.cancelled] else []) engine.cancel
  | countSlice : Does engine [] engine.countSlice
  | requestCancel : Does engine [] engine.requestCancel
  | clearOutput : Does engine [] engine.clearOutput

/-- The acts that lead from one engine to another. -/
inductive Chronicle (first : Engine Token State) :
    List (Act Token) → Engine Token State → Prop where
  | nil : Chronicle first [] first
  | snoc {acts more : List (Act Token)} {before after : Engine Token State}
      (chronicle : Chronicle first acts before) (does : before.Does more after) :
      Chronicle first (acts ++ more) after

theorem Does.chronicle {engine after : Engine Token State} {acts : List (Act Token)}
    (does : engine.Does acts after) : engine.Chronicle acts after :=
  Chronicle.nil.snoc does

theorem Chronicle.trans {first middle last : Engine Token State} {acts more : List (Act Token)}
    (earlier : first.Chronicle acts middle) (later : middle.Chronicle more last) :
    first.Chronicle (acts ++ more) last := by
  induction later with
  | nil => simpa using earlier
  | snoc chronicle does ih =>
      rw [← List.append_assoc]
      exact ih.snoc does

theorem Ticked.instructions_eq {engine : Engine Token State} {run : Run Token State}
    {result : Engine Token State × Option Next} (ticked : Ticked engine run result) :
    result.1.statistics.instructions =
      engine.statistics.instructions + run.program.current?.toList.length := by
  cases ticked with
  | finished atEnd | unfinished atEnd => simp [atEnd]
  | proceeded current | yielded current | asked current | halted current | failed current =>
      simp [current]

theorem Does.instructions_eq {engine after : Engine Token State} {acts : List (Act Token)}
    (does : engine.Does acts after) (noStart : Act.NoStart acts) :
    after.statistics.instructions =
      engine.statistics.instructions + acts.countP Act.isExecuted := by
  cases does with
  | start source => exact absurd (List.mem_singleton.mpr rfl) (noStart source)
  | execute running unrequested current =>
      rw [(tick_ticked running).instructions_eq, current]
      rfl
  | conclude running unrequested atEnd =>
      rw [(tick_ticked running).instructions_eq, atEnd]
      rfl
  | answer suspended commits =>
      rcases respond_of_commits suspended commits with ⟨_, _, responds⟩ | ⟨_, _, responds⟩
      · simp [responds, Act.isExecuted]
      · simp [responds, Act.isExecuted]
  | edit => simp
  | cancel =>
      split
      · simp [Act.isExecuted]
      · simp
  | countSlice | requestCancel => rfl
  | clearOutput => simp

/-- As many instructions are counted as tokens were executed. -/
theorem Chronicle.instructions_eq {first engine : Engine Token State} {acts : List (Act Token)}
    (chronicle : first.Chronicle acts engine) (noStart : Act.NoStart acts) :
    engine.statistics.instructions =
      first.statistics.instructions + acts.countP Act.isExecuted := by
  induction chronicle with
  | nil => simp
  | snoc chronicle does ih =>
      rcases Act.noStart_append.mp noStart with ⟨noStart, noStartLater⟩
      rw [does.instructions_eq noStartLater, ih noStart, List.countP_append, Nat.add_assoc]

/-! ### Calls are chronicles -/

/-- The engine carries on a run: acts without a start lead there. -/
def Carries (first engine : Engine Token State) : Prop :=
  ∃ acts, first.Chronicle acts engine ∧ Act.NoStart acts

theorem Carries.refl (engine : Engine Token State) : engine.Carries engine :=
  ⟨[], .nil, by simp [Act.NoStart]⟩

theorem Carries.snoc {first before after : Engine Token State} {more : List (Act Token)}
    (carries : first.Carries before) (does : before.Does more after)
    (noStart : Act.NoStart more) : first.Carries after := by
  rcases carries with ⟨acts, chronicle, noStartBefore⟩
  exact ⟨acts ++ more, chronicle.snoc does, Act.noStart_append.mpr ⟨noStartBefore, noStart⟩⟩

theorem Carries.cancel {first engine : Engine Token State} (carries : first.Carries engine) :
    first.Carries engine.cancel := by
  refine carries.snoc .cancel ?_
  intro source mem
  split at mem
  · simp at mem
  · simp at mem

theorem keptBySlices_carries (first : Engine Token State) : KeptBySlices first.Carries where
  cancel engine carries := carries.cancel
  countSlice engine carries := carries.snoc .countSlice (by simp [Act.NoStart])
  ticked engine run result running unrequested ticked carries := by
    rw [ticked.unique (tick_ticked running)]
    cases current : run.program.current? with
    | none => exact carries.snoc (.conclude running unrequested current) (by simp [Act.NoStart])
    | some token =>
        exact carries.snoc (.execute running unrequested current) (by simp [Act.NoStart])

/-- The response to a key commits an answer, edits the line, cancels the run or does nothing. -/
theorem Carries.respond {first engine : Engine Token State} (carries : first.Carries engine)
    (key : Key) : first.Carries (engine.respond key).1 := by
  cases requested : engine.cancelRequested with
  | true =>
      rw [respond_of_requested requested]
      exact carries.cancel
  | false =>
      have answers {run : Run Token State} {prompt : Prompt} {answer : Answer}
          (suspended : engine.phase = .suspended run prompt)
          (commits : engine.committed? key = some answer) : first.Carries (engine.respond key).1 :=
        carries.snoc (.answer suspended commits) (by simp [Act.NoStart])
      have responded := respond_responded engine key
      generalize engine.respond key = response at responded answers
      cases responded with
      | cancelled uncommitted => exact carries.cancel
      | ignored uncommitted => exact carries
      | edited suspended uncommitted =>
          exact carries.snoc (.edit suspended requested uncommitted) (by simp [Act.NoStart])
      | accepted suspended commits line receives => exact answers suspended commits
      | refused suspended commits line refuses => exact answers suspended commits

/-- A call is a row of acts, and starts no program but the one it names. -/
theorem Makes.exists_chronicle {engine after : Engine Token State} {call : Call}
    (makes : engine.Makes call after) :
    ∃ acts, engine.Chronicle acts after ∧
      ∀ source, .started source ∈ acts → call = .start source := by
  have carried {call : Call} {after : Engine Token State} (carries : engine.Carries after) :
      ∃ acts, engine.Chronicle acts after ∧
        ∀ source, .started source ∈ acts → call = .start source := by
    rcases carries with ⟨acts, chronicle, noStart⟩
    exact ⟨acts, chronicle, fun source mem => absurd mem (noStart source)⟩
  have kept := keptBySlices_carries engine
  have here := Carries.refl engine
  cases makes with
  | start source => exact ⟨_, (Does.start source).chronicle, by simp [eq_comm]⟩
  | slice => exact carried (kept.slice here)
  | untilBlocked blocks => exact carried (kept.blocks blocks here)
  | press key => exact carried (kept.press (here.respond key))
  | cancel => exact carried here.cancel
  | requestCancel => exact carried (here.snoc .requestCancel (by simp [Act.NoStart]))
  | clearOutput => exact carried (here.snoc .clearOutput (by simp [Act.NoStart]))

/-- A history of calls is a chronicle, and starts no programs but those it names. -/
theorem History.exists_chronicle {first engine : Engine Token State} {calls : List Call}
    {answers : List Answer} (history : first.History calls answers engine) :
    ∃ acts, first.Chronicle acts engine ∧
      ∀ source, .started source ∈ acts → .start source ∈ calls := by
  induction history with
  | nil => exact ⟨[], .nil, by simp⟩
  | snoc history makes ih =>
      rcases ih with ⟨acts, chronicle, named⟩
      rcases makes.exists_chronicle with ⟨more, later, namedLater⟩
      refine ⟨acts ++ more, chronicle.trans later, ?_⟩
      intro source mem
      rcases List.mem_append.mp mem with mem | mem
      · exact List.mem_append_left _ (named source mem)
      · simp [namedLater source mem]

/-- A history that starts no program carries on what there was. -/
theorem History.carries {first engine : Engine Token State} {calls : List Call}
    {answers : List Answer} (history : first.History calls answers engine)
    (noStart : ∀ source, .start source ∉ calls) : first.Carries engine := by
  rcases history.exists_chronicle with ⟨acts, chronicle, named⟩
  exact ⟨acts, chronicle, fun source mem => noStart source (named source mem)⟩

end Engine

end Esoterica
