import Esoterica.Proofs.Dialect
import Esoterica.Proofs.Engine.Settings
import Esoterica.Proofs.Engine.Transcript

/-!
# Runs do not depend on earlier runs

Starting a program takes nothing from the engine but its settings and its random stream. So an
engine with any past behind it and a fresh one with the same settings coincide when both have
started the same program, and from there on a host cannot tell them apart.
-/

namespace Esoterica

namespace Engine

variable {Token State : Type}

/-! ### The start of a program -/

/-- The engine with a new run in a phase, as if nothing had been reported. -/
def launched (engine : Engine Token State) (phase : Phase Token State) : Engine Token State :=
  { engine with
    console := {}
    random := engine.options.randomStream engine.random
    phase
    cancelRequested := false
    statistics := {} }

/-- The phase in which a source is started, and what then comes next. -/
def opening (engine : Engine Token State) (source : String) : Phase Token State × Next :=
  match engine.language.read source with
  | .ok program => (.running (engine.runFrom program), .slice)
  | .error error => (.failed (.source error), .done .failed)

theorem wiped_eq (engine : Engine Token State) :
    engine.wiped = (engine.launched engine.phase).emit
      (engine.console.wipe.changes.toList.map .console) := by
  have blank : { engine.console.wipe with changes := #[] } = ({} : Console) := by
    rcases wipes : engine.console.wipe with ⟨output, echo, changes⟩
    have output := Console.wipe_output engine.console
    have echo := Console.wipe_echo engine.console
    simp_all
  unfold wiped updateConsole
  rw [publish_eq]
  simp only [blank]
  rfl

theorem dropEcho_launched (engine : Engine Token State) (phase : Phase Token State)
    (events : List Event) :
    ((engine.launched phase).emit events).updateConsole Console.dropEcho =
      (engine.launched phase).emit events := by
  unfold updateConsole
  rw [publish_eq]
  simp [emit, launched, Console.dropEcho, Observer.asksAmong]

/-- The start of a program leaves nothing of an earlier run behind. -/
theorem exists_start_eq (engine : Engine Token State) (source : String) :
    ∃ events, engine.start source =
      ((engine.launched (engine.opening source).1).emit events, (engine.opening source).2) := by
  have enters (phase : Phase Token State) (events : List Event) :
      ∃ more, ((engine.launched engine.phase).emit events).enter phase =
        (engine.launched phase).emit more := by
    rw [enter_eq]
    exact ⟨_, emit_emit (engine.launched phase) events _⟩
  rw [start_eq, wiped_eq]
  unfold opening
  cases engine.language.read source with
  | ok program =>
      rcases enters (.running (engine.runFrom program)) _ with ⟨events, entered⟩
      refine ⟨events, ?_⟩
      simp only
      rw [entered]
  | error error =>
      rcases enters (.failed (.source error)) _ with ⟨events, entered⟩
      refine ⟨events, ?_⟩
      simp only [fail, dropEcho_launched, report_eq, emit_emit]
      rw [entered]

/-- What is reported while a program is started. -/
def startEvents (engine : Engine Token State) (source : String) : List Event :=
  (engine.forgetEvents.start source).1.events.toList

def withMemory (engine : Engine Token State) (memory : List Event) : Engine Token State :=
  { engine with memory }

/--
Unless the observer cancels the run at once, it is left as if nothing had been reported, but for
what the observer remembers.
-/
theorem forgetEvents_start {engine : Engine Token State} {source : String}
    (quiet : engine.observer.asksAmong engine.memory (engine.startEvents source) = false) :
    (engine.start source).1.forgetEvents =
      (engine.launched (engine.opening source).1).forgetEvents.withMemory
        (engine.start source).1.memory := by
  rcases exists_start_eq engine.forgetEvents source with ⟨events, starts⟩
  have reported : engine.startEvents source = events := by
    rw [startEvents, starts]
    simp [emit, launched, forgetEvents]
  rw [reported] at quiet
  have recalled := start_recalling engine.forgetEvents engine.events source
  rw [recalling_forgetEvents, starts] at recalled
  rw [recalled]
  simp [recalling, emit, launched, forgetEvents, withMemory, opening, runFrom, quiet]

theorem start_random (engine : Engine Token State) (source : String) :
    (engine.start source).1.random = engine.options.randomStream engine.random := by
  rcases exists_start_eq engine source with ⟨events, starts⟩
  rw [starts]
  rfl

/-! ### Two engines -/

/-- Two engines coincide in what a host can ask for and in the run they go on with. -/
structure Coincide (left right : Engine Token State) : Prop where
  status : left.status = right.status
  output : left.output = right.output
  echo : left.console.echo = right.console.echo
  error : left.error? = right.error?
  program : left.phase.run?.map Run.program = right.phase.run?.map Run.program
  state : left.phase.run?.map Run.state = right.phase.run?.map Run.state
  prompt : left.phase.prompt? = right.phase.prompt?
  statistics : left.statistics = right.statistics
  cancelRequested : left.cancelRequested = right.cancelRequested

def withRandom (engine : Engine Token State) (random : RandomStream) : Engine Token State :=
  { engine with random }

theorem coincide_of_forgetEvents {left right : Engine Token State} {random : RandomStream}
    {memory : List Event}
    (same : left.forgetEvents = (right.forgetEvents.withRandom random).withMemory memory) :
    Coincide left right := by
  have phase : left.phase = right.phase := (congrArg Engine.phase same :)
  have console : left.console = right.console := (congrArg Engine.console same :)
  refine ⟨?_, ?_, ?_, ?_, ?_, ?_, ?_, ?_, ?_⟩
  · rw [status, status, phase]
  · rw [output, output, console]
  · rw [console]
  · rw [error?, error?, phase]
  · rw [phase]
  · rw [phase]
  · rw [phase]
  · exact (congrArg Engine.statistics same :)
  · exact (congrArg Engine.cancelRequested same :)

theorem opening_eq_of_settings {left right : Engine Token State}
    (same : left.settings = right.settings) (source : String) :
    left.opening source = right.opening source := by
  have language : left.language = right.language := congrArg (·.1) same
  have options : left.options = right.options := congrArg (·.2.1) same
  unfold opening runFrom
  rw [language, options]

theorem forgetEvents_launched_of_settings {left right : Engine Token State}
    (same : left.settings = right.settings) (phase : Phase Token State) (memory : List Event) :
    (left.launched phase).forgetEvents.withMemory memory =
      ((right.launched phase).forgetEvents.withRandom (left.launched phase).random).withMemory
        memory := by
  rcases left with ⟨language, options, observer, clock⟩
  rcases right with ⟨language, options, observer, clock⟩
  cases same
  rfl

/--
An engine that any calls have led to, and that then starts a program, coincides with a fresh engine
of the same settings that starts it, if the observer cancels neither of them at once. If their
random streams are the same as well, as they are with a seed, and their observers remember the same,
as they do if they remember nothing, later calls return and report the same, whatever calls these
are.
-/
theorem runs_independent (language : Language Token State) (options : Options)
    (observer : Observer) (clock : Clock) (random freshRandom : RandomStream)
    {calls : List Call} {answers : List Answer} {engine : Engine Token State}
    (history : (create language options random observer clock).History calls answers engine)
    (source : String) :
    let fresh := create language options freshRandom observer clock
    observer.asksAmong engine.memory (engine.startEvents source) = false →
    observer.asksAmong fresh.memory (fresh.startEvents source) = false →
    (engine.start source).2 = (fresh.start source).2 ∧
      Coincide (engine.start source).1 (fresh.start source).1 ∧
      (options.seed.isSome = true →
        (engine.start source).1.random = (fresh.start source).1.random) ∧
      (observer.Forgetful → (engine.start source).1.memory = (fresh.start source).1.memory) ∧
      (∀ later answers after, (engine.start source).1.History later answers after →
        ∃ replies, replies.map Reply.call = later ∧
          (engine.start source).1.Transcript replies after) ∧
      ((engine.start source).1.random = (fresh.start source).1.random →
        (engine.start source).1.memory = (fresh.start source).1.memory → ∀ replies,
        (∃ after, (engine.start source).1.Transcript replies after) ↔
          ∃ after, (fresh.start source).1.Transcript replies after) := by
  intro fresh quietEngine quietFresh
  have same : engine.settings = fresh.settings := history.kin.settings_eq
  have sameOptions : engine.options = options := congrArg (·.2.1) same
  have sameObserver : engine.observer = observer := congrArg (·.2.2.1) same
  have opens := opening_eq_of_settings same source
  rw [← sameObserver] at quietEngine
  have engineStarts := forgetEvents_start quietEngine
  have freshStarts : (fresh.start source).1.forgetEvents = _ := forgetEvents_start quietFresh
  -- Nothing but the random stream, the memory and the events can tell the two engines apart.
  have different : (engine.start source).1.forgetEvents =
      ((fresh.start source).1.forgetEvents.withRandom (engine.start source).1.random).withMemory
        (engine.start source).1.memory := by
    rw [start_random, engineStarts, freshStarts, ← opens]
    exact forgetEvents_launched_of_settings same _ _
  have coincide := coincide_of_forgetEvents different
  refine ⟨?_, coincide, ?_, ?_, ?_, ?_⟩
  · rw [start_next, start_next, coincide.status]
  · intro seeded
    rcases Option.isSome_iff_exists.mp seeded with ⟨seed, seeded⟩
    have sameSeed (random : RandomStream) :
        options.randomStream random = options.generator seed := by
      rw [Options.randomStream, seeded]
    rw [start_random, start_random, sameOptions, sameSeed]
    exact (sameSeed _).symm
  · intro forgetful
    have engineKept := (history.kin.start source).memory_eq forgetful
    have freshKept := ((Kin.refl fresh).start source).memory_eq forgetful
    exact engineKept.trans freshKept.symm
  · intro later answers after history
    exact history.exists_transcript
  · intro sameRandom sameMemory replies
    rw [sameRandom, sameMemory] at different
    have alike : (engine.start source).1.forgetEvents = (fresh.start source).1.forgetEvents :=
      different
    constructor
    · rintro ⟨after, transcript⟩
      rcases transcript.of_forgetEvents alike with ⟨afterToo, transcriptToo, _⟩
      exact ⟨afterToo, transcriptToo⟩
    · rintro ⟨after, transcript⟩
      rcases transcript.of_forgetEvents alike.symm with ⟨afterToo, transcriptToo, _⟩
      exact ⟨afterToo, transcriptToo⟩

/-- Half of a number is typed and a cancellation is asked for; then another program is started. -/
theorem runs_independent_of_half_typed :
    let fresh := create Dialect.standard.language { seed := some 7 } .zeros
      { cancelsAt := fun _ event => event == .status .completed } Clock.stopped
    let typing := (((fresh.start "$:;").1.slice.1.press (.char '-')).1.press (.char '7')).1
    let engine := typing.requestCancel
    (∃ calls answers, fresh.History calls answers engine) ∧
      engine.status = .suspended (.line .decimal) ∧ engine.console.echo = "-7" ∧
      engine.cancelRequested = true ∧ engine.statistics.slices = 1 ∧
      Coincide (engine.start "$?;").1 (fresh.start "$?;").1 ∧
      ∀ replies, (∃ after, (engine.start "$?;").1.Transcript replies after) ↔
        ∃ after, (fresh.start "$?;").1.Transcript replies after := by
  intro fresh typing engine
  have status : engine.status = .suspended (.line .decimal) := by decide +kernel
  have echo : engine.console.echo = "-7" := by decide +kernel
  have slices : engine.statistics.slices = 1 := by decide +kernel
  have quietEngine : fresh.observer.asksAmong engine.memory (engine.startEvents "$?;") = false := by
    decide +kernel
  have quietFresh : fresh.observer.asksAmong fresh.memory (fresh.startEvents "$?;") = false := by
    decide +kernel
  obtain ⟨calls, answers, history⟩ : ∃ calls answers, fresh.History calls answers engine := by
    rcases exists_history_typing fresh "$:;" (.char '-') (.char '7') with ⟨answers, history⟩
    exact ⟨_, _, history.snoc .requestCancel⟩
  have requested : engine.cancelRequested = true := rfl
  clear_value engine
  rcases runs_independent _ _ _ _ .zeros .zeros history "$?;" quietEngine quietFresh with
    ⟨_, coincide, random, memory, _, alike⟩
  exact ⟨⟨_, _, history⟩, status, echo, requested, slices, coincide,
    alike (random rfl) (memory fun _ _ => rfl)⟩

end Engine

end Esoterica
