import Esoterica.Proofs.Engine.Chronicle

/-!
# What all runs keep to

A conduct says what the runs of a language may come to, what they may ask for and how they may fail.
Whether a language keeps to a conduct is a matter of single tokens and answers. If it does, so does
every engine with that language, at every moment and whatever calls are made: the run it has is
allowed, and no event tells of a request or a failure that is not.

An answer is not any entry: it is of the kind that the request asked for.
-/

namespace Esoterica

/-- The entry can be the answer to the request. -/
inductive Request.Admits : Request → Entry → Prop where
  | char (c : Char) : Admits .char (.char c)
  | line (form : LineForm) (line : String) : Admits (.line form) (form.entry line)

/-- What runs may come to, ask for and fail with. -/
structure Conduct (Token State : Type) where
  mayRun : Run Token State → Prop
  mayAsk : Request → Prop
  mayFail : Failure → Prop

namespace Conduct

variable {Token State : Type} {conduct : Conduct Token State} {phase : Phase Token State}

def MayEnter (conduct : Conduct Token State) : Phase Token State → Prop
  | .running run => conduct.mayRun run
  | .suspended run prompt => conduct.mayRun run ∧ conduct.mayAsk prompt.request
  | .failed failure => conduct.mayFail failure
  | .idle | .completed | .cancelled => True

def MayShow (conduct : Conduct Token State) : Status → Prop
  | .suspended request => conduct.mayAsk request
  | .failed => ∃ failure, conduct.mayFail failure
  | .idle | .running | .completed | .cancelled => True

def MayTell (conduct : Conduct Token State) : Event → Prop
  | .console _ => True
  | .failed message => ∃ failure, conduct.mayFail failure ∧ failure.message = message
  | .status status => conduct.MayShow status

theorem MayEnter.mayShow (mayEnter : conduct.MayEnter phase) : conduct.MayShow phase.status := by
  cases phase with
  | idle | running | completed | cancelled => trivial
  | suspended run prompt => exact mayEnter.2
  | failed failure => exact ⟨failure, mayEnter⟩

theorem MayEnter.mayRun {run : Run Token State} (mayEnter : conduct.MayEnter phase)
    (active : phase.run? = some run) : conduct.mayRun run := by
  cases phase with
  | running =>
      cases active
      exact mayEnter
  | suspended =>
      cases active
      exact mayEnter.1
  | idle | completed | failed | cancelled => cases active

end Conduct

/-- Programs of the language keep to the conduct when they are run with the options. -/
structure Language.Keeps {Token State : Type} (language : Language Token State) (options : Options)
    (conduct : Conduct Token State) : Prop where
  start : ∀ source program, language.read source = .ok program →
    conduct.mayRun { program := program.rewind, state := language.initial options }
  unreadable : ∀ source error, language.read source = .error error →
    conduct.mayFail (.source error)
  perform : ∀ (machine : Machine Token State) token flow after,
    conduct.mayRun (Engine.runOf machine) → machine.program.current? = some token →
      language.perform token machine.behind = (.ok flow, after) →
        conduct.mayRun (Engine.runOf after) ∧ ∀ request, flow = .ask request →
          conduct.mayAsk request
  performFails : ∀ (machine : Machine Token State) token fault after,
    conduct.mayRun (Engine.runOf machine) → machine.program.current? = some token →
      language.perform token machine.behind = (.error fault, after) →
        conduct.mayFail
          (.instruction (language.describe token) (machine.program.counter + 1) fault)
  receive : ∀ run request entry state, conduct.mayRun run → conduct.mayAsk request →
    request.Admits entry → language.receive entry run.state = .ok state →
      conduct.mayRun { run with state }
  receiveFails : ∀ run request entry fault text position, conduct.mayRun run →
    conduct.mayAsk request → request.Admits entry →
      language.receive entry run.state = .error fault →
        conduct.mayFail (.instruction text position fault)
  finishFails : ∀ run fault text position, conduct.mayRun run →
    language.finish run.state = .error fault → conduct.mayFail (.instruction text position fault)

theorem Prompt.admits_of_committed {prompt : Prompt} {key : Key} {console : Console}
    {entry : Entry} (commits : (prompt.press key console).1 = .committed entry) :
    prompt.request.Admits entry := by
  cases asks : prompt.request with
  | char =>
      simp only [press, asks] at commits
      split at commits
      · cases commits
        exact .char _
      · cases commits
  | line form =>
      rw [eq_enter_of_committed asks commits] at commits
      simp only [press, asks, pressLine, Reaction.committed.injEq] at commits
      rw [← commits]
      exact .line form console.echo

namespace Engine

variable {Token State : Type} {conduct : Conduct Token State} {engine : Engine Token State}

/-- The language keeps to the conduct, and no event tells of anything else. -/
structure Heeds (conduct : Conduct Token State) (engine : Engine Token State) : Prop where
  keeps : engine.language.Keeps engine.options conduct
  mayTell : ∀ event ∈ engine.events, conduct.MayTell event

/-- The engine keeps to the conduct, and so does its language. -/
structure Abides (conduct : Conduct Token State) (engine : Engine Token State) : Prop
    extends Heeds conduct engine where
  mayEnter : conduct.MayEnter engine.phase

namespace Heeds

variable {after : Engine Token State}

theorem emit {events : List Event} (heeds : Heeds conduct engine)
    (sameLanguage : after.language = engine.language) (sameOptions : after.options = engine.options)
    (sameEvents : after.events = engine.events)
    (mayTell : ∀ event ∈ events, conduct.MayTell event) : Heeds conduct (after.emit events) where
  keeps := by
    rw [emit_language, emit_options, sameLanguage, sameOptions]
    exact heeds.keeps
  mayTell := by
    intro event mem
    rcases Array.mem_append.mp mem with earlier | new
    · rw [sameEvents] at earlier
      exact heeds.mayTell event earlier
    · exact mayTell event (List.mem_toArray.mp new)

theorem publish (heeds : Heeds conduct engine) (sameLanguage : after.language = engine.language)
    (sameOptions : after.options = engine.options) (sameEvents : after.events = engine.events) :
    Heeds conduct after.publish := by
  rw [publish_eq]
  refine heeds.emit sameLanguage sameOptions sameEvents ?_
  intro event mem
  rcases List.mem_map.mp mem with ⟨change, _, rfl⟩
  trivial

theorem enter {phase : Phase Token State} (heeds : Heeds conduct engine)
    (mayEnter : conduct.MayEnter phase) : Abides conduct (engine.enter phase) := by
  refine ⟨?_, by rwa [enter_phase]⟩
  rw [enter_eq]
  refine heeds.emit rfl rfl rfl ?_
  intro event mem
  unfold announcement at mem
  split at mem
  · cases mem
  · cases List.mem_singleton.mp mem
    exact mayEnter.mayShow

theorem fail {failure : Failure} (heeds : Heeds conduct engine)
    (mayFail : conduct.mayFail failure) : Abides conduct (engine.fail failure) := by
  have dropped : Heeds conduct (engine.updateConsole Console.dropEcho) :=
    heeds.publish rfl rfl rfl
  have reported : Heeds conduct
      ((engine.updateConsole Console.dropEcho).report (.failed failure.message)) := by
    rw [report_eq]
    refine dropped.emit rfl rfl rfl ?_
    intro event mem
    cases List.mem_singleton.mp mem
    exact ⟨failure, mayFail, rfl⟩
  exact reported.enter mayFail

theorem adopt (heeds : Heeds conduct engine) (machine : Machine Token State) :
    Heeds conduct (engine.adopt machine) :=
  heeds.publish rfl rfl rfl

end Heeds

namespace Abides

theorem cancel (abides : Abides conduct engine) : Abides conduct engine.cancel := by
  cases active : engine.status.isActive with
  | true =>
      rw [cancel_of_active active]
      apply Heeds.enter
      · exact abides.publish rfl rfl rfl
      · trivial
  | false =>
      rw [cancel_of_inactive active]
      exact ⟨⟨abides.keeps, abides.mayTell⟩, abides.mayEnter⟩

theorem start (abides : Abides conduct engine) (source : String) :
    Abides conduct (engine.start source).1 := by
  have wiped : Heeds conduct engine.wiped := abides.publish rfl rfl rfl
  rw [start_eq]
  cases reads : engine.language.read source with
  | ok program =>
      simp only
      exact wiped.enter (abides.keeps.start source program reads)
  | error error =>
      simp only
      exact wiped.fail (abides.keeps.unreadable source error reads)

/-- The next token leaves a run that is allowed, or ends it as it may end. -/
theorem ticked {run : Run Token State} {after : Engine Token State} {next? : Option Next}
    (abides : Abides conduct engine) (running : engine.phase = .running run)
    (ticked : Ticked engine run (after, next?)) : Abides conduct after := by
  have mayRun : conduct.mayRun run := abides.mayEnter.mayRun (by rw [running]; rfl)
  have performs := abides.keeps.perform (engine.machineAt run.program run.state)
  have performFails := abides.keeps.performFails (engine.machineAt run.program run.state)
  cases ticked with
  | finished => exact abides.enter trivial
  | unfinished atEnd refuses =>
      exact abides.fail (abides.keeps.finishFails run _ _ _ mayRun refuses)
  | proceeded current attempts | yielded current attempts =>
      refine ⟨abides.adopt _, ?_⟩
      rw [adopt_phase]
      exact (performs _ _ _ mayRun current attempts).1
  | asked current attempts =>
      rcases performs _ _ _ mayRun current attempts with ⟨mayRun, mayAsk⟩
      exact (abides.adopt _).enter ⟨mayRun, mayAsk _ rfl⟩
  | halted current attempts => exact (abides.adopt _).enter trivial
  | failed current attempts =>
      exact (abides.adopt _).fail (performFails _ _ _ mayRun current attempts)

theorem answer {run : Run Token State} {prompt : Prompt} {key : Key} {answer : Answer}
    (abides : Abides conduct engine) (suspended : engine.phase = .suspended run prompt)
    (commits : engine.committed? key = some answer) : Abides conduct (engine.respond key).1 := by
  have admits : prompt.request.Admits answer.entry :=
    Prompt.admits_of_committed (press_of_commits suspended commits).1
  have published : Heeds conduct
      (publish { engine with console := engine.consoleAfter prompt.request }) :=
    abides.publish rfl rfl rfl
  have mayEnter := abides.mayEnter
  rw [suspended] at mayEnter
  rcases mayEnter with ⟨mayRun, mayAsk⟩
  rcases respond_of_commits suspended commits with
    ⟨state, receives, responds⟩ | ⟨fault, refuses, responds⟩
  · simp only [responds]
    exact published.enter (abides.keeps.receive run _ _ state mayRun mayAsk admits receives)
  · simp only [responds]
    exact published.fail (abides.keeps.receiveFails run _ _ fault _ _ mayRun mayAsk admits refuses)

theorem does {acts : List (Act Token)} {after : Engine Token State}
    (abides : Abides conduct engine) (does : engine.Does acts after) : Abides conduct after := by
  cases does with
  | start source => exact abides.start source
  | execute running unrequested current => exact abides.ticked running (tick_ticked running)
  | conclude running unrequested atEnd => exact abides.ticked running (tick_ticked running)
  | answer suspended commits => exact abides.answer suspended commits
  | edit suspended unrequested uncommitted =>
      have mayEnter := abides.mayEnter
      rw [suspended] at mayEnter
      refine ⟨abides.publish rfl rfl rfl, ?_⟩
      rw [publish_phase]
      refine ⟨mayEnter.1, ?_⟩
      rw [Prompt.press_request]
      exact mayEnter.2
  | cancel => exact abides.cancel
  | countSlice | requestCancel => exact ⟨⟨abides.keeps, abides.mayTell⟩, abides.mayEnter⟩
  | clearOutput =>
      refine ⟨abides.publish rfl rfl rfl, ?_⟩
      rw [clearOutput_phase]
      exact abides.mayEnter

end Abides

/-- An engine that was just made keeps to whatever its language keeps to. -/
theorem abides_create {language : Language Token State} {options : Options}
    (keeps : language.Keeps options conduct) (random : RandomStream) (observer : Observer)
    (clock : Clock) : Abides conduct (create language options random observer clock) :=
  ⟨⟨keeps, by simp [create]⟩, trivial⟩

theorem Chronicle.abides {first : Engine Token State} {acts : List (Act Token)}
    (chronicle : first.Chronicle acts engine) (abides : Abides conduct first) :
    Abides conduct engine := by
  induction chronicle with
  | nil => exact abides
  | snoc chronicle does ih => exact ih.does does

theorem History.abides {first : Engine Token State} {calls : List Call} {answers : List Answer}
    (history : first.History calls answers engine) (abides : Abides conduct first) :
    Abides conduct engine := by
  rcases history.exists_chronicle with ⟨_, chronicle, _⟩
  exact chronicle.abides abides

end Engine

end Esoterica
