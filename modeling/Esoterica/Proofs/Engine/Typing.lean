import Esoterica.Proofs.Engine.Cancellation
import Esoterica.Proofs.Engine.Consistency

/-!
# Typing leaves no trace

While a run waits for a line, keys edit the echo and nothing else, until the line is committed. So
a run that is cancelled before that leaves the output as it was when the line was asked for,
whatever was typed and rubbed out, and in whichever way the cancellation came about.
-/

namespace Esoterica

namespace Call

/-- Whether the call can only edit a line: a slice, or a key that neither commits nor cancels. -/
def types : Call → Bool
  | slice | untilBlocked => true
  | press key => key != .enter && key != .escape
  | start _ | cancel | requestCancel | clearOutput => false

end Call

namespace Prompt

theorem press_output (prompt : Prompt) (key : Key) (console : Console) :
    (prompt.press key console).2.2.output = console.output := by
  rcases prompt.press_console key console with unchanged | ⟨echo, changed⟩
  · rw [unchanged]
  · rw [changed]
    rfl

end Prompt

namespace Phase

variable {Token State : Type} {form : LineForm}

/-- The first phase waits on for the line that the second one has asked for, or was cancelled. -/
inductive Kept (form : LineForm) (asked : Phase Token State) : Phase Token State → Prop where
  | waiting {run : Run Token State} {prompt pressed : Prompt}
      (suspended : asked = .suspended run prompt) (asks : pressed.request = .line form) :
      Kept form asked (.suspended run pressed)
  | cancelled : Kept form asked .cancelled

theorem kept_refl {phase : Phase Token State} (suspended : phase.status = .suspended (.line form)) :
    Kept form phase phase := by
  cases phase with
  | suspended run prompt =>
      exact .waiting rfl (by simpa [status] using suspended)
  | idle | running | completed | failed | cancelled => cases suspended

theorem Kept.press {asked : Phase Token State} {run : Run Token State} {prompt pressed : Prompt}
    (kept : Kept form asked (.suspended run prompt)) (same : pressed.request = prompt.request) :
    Kept form asked (.suspended run pressed) := by
  cases kept with
  | waiting suspended asks => exact .waiting suspended (same.trans asks)

theorem Kept.eq_cancelled {asked phase : Phase Token State} (kept : Kept form asked phase)
    (inactive : phase.status.isActive = false) : phase = .cancelled := by
  cases kept with
  | waiting => cases inactive
  | cancelled => rfl

end Phase

namespace Engine

variable {Token State : Type} {asked engine after : Engine Token State} {form : LineForm}

/-- All that typing can have changed since a line was asked for is the echo. -/
structure Typed (asked : Engine Token State) (form : LineForm) (engine : Engine Token State) :
    Prop where
  observer_eq : engine.observer = asked.observer
  output_eq : engine.output = asked.output
  statistics_eq : engine.statistics = asked.statistics
  kept : Phase.Kept form asked.phase engine.phase
  uncancelled : asked.cancelRequested = false →
    (∀ memory echo, asked.observer.cancelsAt memory (.console (.echoed echo)) = false) →
      engine.cancelRequested = false ∧ engine.status = .suspended (.line form)

theorem typed_refl (suspended : asked.status = .suspended (.line form)) :
    asked.Typed form asked where
  observer_eq := rfl
  output_eq := rfl
  statistics_eq := rfl
  kept := Phase.kept_refl suspended
  uncancelled unrequested _ := ⟨unrequested, suspended⟩

theorem Typed.cancel (typed : asked.Typed form engine) (published : engine.console.changes = #[])
    (requested : engine.cancelRequested = true) : asked.Typed form engine.cancel where
  observer_eq := (cancel_observer engine).trans typed.observer_eq
  output_eq := (cancel_cancels published).output_eq.trans typed.output_eq
  statistics_eq := (cancel_cancels published).statistics_eq.trans typed.statistics_eq
  kept := by
    rw [cancel_phase]
    split
    · exact .cancelled
    · exact typed.kept
  uncancelled unrequested unasked := by
    have lowered := (typed.uncancelled unrequested unasked).1
    rw [requested] at lowered
    cases lowered

theorem press_changes {prompt : Prompt} {key : Key} {console : Console}
    (published : console.changes = #[]) :
    (prompt.press key console).2.2.changes = #[] ∨
      ∃ echo, (prompt.press key console).2.2.changes = #[.echoed echo] := by
  rcases prompt.press_console key console with unchanged | ⟨echo, changed⟩
  · left
    rw [unchanged, published]
  · right
    refine ⟨echo, ?_⟩
    rw [changed]
    simp [Console.setEcho, published]

theorem Typed.edit {run : Run Token State} {prompt : Prompt} (typed : asked.Typed form engine)
    (published : engine.console.changes = #[]) (suspended : engine.phase = .suspended run prompt)
    (key : Key) :
    asked.Typed form
      (publish
        { engine with
          console := (prompt.press key engine.console).2.2
          phase := .suspended run (prompt.press key engine.console).2.1 }) := by
  have kept := typed.kept
  rw [suspended] at kept
  have sameRequest := prompt.press_request key engine.console
  have keptToo : Phase.Kept form asked.phase
      (.suspended run (prompt.press key engine.console).2.1) := kept.press sameRequest
  refine ⟨?_, ?_, ?_, ?_, ?_⟩
  · simpa using typed.observer_eq
  · simpa [output] using (prompt.press_output key engine.console).trans typed.output_eq
  · simpa using typed.statistics_eq
  · simpa using keptToo
  · intro unrequested unasked
    rcases typed.uncancelled unrequested unasked with ⟨lowered, waits⟩
    have noRequest : engine.observer.asksAmong engine.memory
        ((prompt.press key engine.console).2.2.changes.toList.map Event.console) = false := by
      rw [typed.observer_eq]
      rcases press_changes published with none | ⟨echo, changed⟩
      · rw [none]
        rfl
      · rw [changed]
        simpa [Observer.asksAmong] using unasked engine.memory echo
    constructor
    · simp [publish_eq, emit, lowered, noRequest]
    · rw [status, suspended] at waits
      simpa [status, Phase.status, sameRequest] using waits

/-- A key that neither commits nor cancels is part of the typing, and no slice follows. -/
theorem Typed.responded {key : Key} {response : Engine Token State × Bool}
    (typed : asked.Typed form engine) (published : engine.console.changes = #[])
    (notEnter : key ≠ .enter) (notEscape : key ≠ .escape)
    (responded : Responded engine key response) :
    asked.Typed form response.1 ∧ response.2 = false ∧ engine.committed? key = none := by
  -- Only the enter key commits while a line is asked for.
  have commitsNothing {run : Run Token State} {prompt : Prompt} {answer : Answer}
      (suspended : engine.phase = .suspended run prompt)
      (commits : engine.committed? key = some answer) : False := by
    have kept := typed.kept
    rw [suspended] at kept
    cases kept with
    | waiting _ asks =>
        exact notEnter (Prompt.eq_enter_of_committed asks (press_of_commits suspended commits).1)
  cases responded with
  | cancelled uncommitted wanted =>
      have requested : engine.cancelRequested = true := by simpa [notEscape] using wanted
      exact ⟨typed.cancel published requested, rfl, uncommitted⟩
  | ignored uncommitted => exact ⟨typed, rfl, uncommitted⟩
  | edited suspended uncommitted =>
      exact ⟨typed.edit published suspended key, rfl, uncommitted⟩
  | accepted suspended commits | refused suspended commits =>
      exact (commitsNothing suspended commits).elim

theorem Typed.status_ne_running (typed : asked.Typed form engine) : engine.status ≠ .running := by
  have kept := typed.kept
  intro running
  rcases Phase.status_eq_running_iff.mp running with ⟨run, phase⟩
  rw [phase] at kept
  cases kept

theorem Typed.slice (typed : asked.Typed form engine) (published : engine.console.changes = #[]) :
    asked.Typed form engine.slice.1 ∧ engine.slice.2 ≠ .slice := by
  cases requested : engine.cancelRequested with
  | true =>
      rw [slice_of_requested requested]
      exact ⟨typed.cancel published requested,
        Status.next_ne_slice_iff.mpr engine.cancel_status_ne_running⟩
  | false =>
      rw [slice_of_not_running requested typed.status_ne_running]
      exact ⟨typed, Status.next_ne_slice_iff.mpr typed.status_ne_running⟩

/-- Every call that types is part of the typing, and commits nothing. -/
theorem Typed.makes {call : Call} (typed : asked.Typed form engine)
    (published : engine.console.changes = #[]) (types : call.types = true)
    (makes : engine.Makes call after) : asked.Typed form after ∧ engine.answerOf call = [] := by
  cases makes with
  | slice => exact ⟨(typed.slice published).1, rfl⟩
  | untilBlocked blocks =>
      rcases typed.slice published with ⟨typedToo, final⟩
      rcases blocks_iff.mp blocks with ⟨_, sliced⟩ | ⟨called, _⟩
      · rw [← sliced]
        exact ⟨typedToo, rfl⟩
      · exact absurd called final
  | press key =>
      simp only [Call.types, Bool.and_eq_true, bne_iff_ne] at types
      rcases types with ⟨notEnter, notEscape⟩
      have responded := respond_responded engine key
      rcases typed.responded published notEnter notEscape responded with
        ⟨typedToo, last, uncommitted⟩
      constructor
      · rw [press_eq, follow, if_neg (by simp [last])]
        exact typedToo
      · simp [answerOf, uncommitted]
  | start | cancel | requestCancel | clearOutput => cases types

theorem History.typed {typing : List Call} {answers : List Answer} (mirrored : asked.Mirrored)
    (suspended : asked.status = .suspended (.line form))
    (history : asked.History typing answers after)
    (types : ∀ call ∈ typing, call.types = true) : asked.Typed form after ∧ answers = [] := by
  induction history with
  | nil => exact ⟨typed_refl suspended, rfl⟩
  | snoc history makes ih =>
      rcases List.forall_mem_append.mp types with ⟨types, typesToo⟩
      rcases ih types with ⟨typed, nothing⟩
      have published := (history.mirrored mirrored).published
      rcases typed.makes published (typesToo _ (by simp)) makes with ⟨typed, nothingToo⟩
      exact ⟨typed, by rw [nothing, nothingToo]; rfl⟩

/-! ### Cancelling what was typed -/

/-- The run was cancelled and nothing is shown but the output, to the host and to the observer. -/
structure Discarded (output : String) (engine : Engine Token State) : Prop where
  output_eq : engine.output = output
  echo_eq : engine.console.echo = ""
  status_eq : engine.status = .cancelled
  run_eq : engine.phase.run? = none
  error_eq : engine.error? = none
  replica_eq : Replica.watch {} engine.events.toList = { output, echo := "", status := .cancelled }

theorem discarded_of_cancelled {shown : String} (consistent : engine.Consistent)
    (mirrored : engine.Mirrored) (ended : engine.phase = .cancelled)
    (output_eq : engine.output = shown) : Discarded shown engine := by
  subst output_eq
  have noEcho : engine.console.echo = "" := by
    have fits := consistent.fits
    rwa [ended] at fits
  have isCancelled : engine.status = .cancelled := by
    rw [status, ended]
    rfl
  refine ⟨rfl, noEcho, isCancelled, ?_, ?_, ?_⟩
  · rw [ended]
    rfl
  · rw [error?, ended]
    rfl
  · rw [mirrored.shows, Console.replica, noEcho, isCancelled]
    rfl

/-- The ways in which a host can cancel the run of an engine. -/
inductive CancelledBy (engine : Engine Token State) : Engine Token State → Prop where
  | escape : CancelledBy engine (engine.press .escape).1
  | call : CancelledBy engine engine.cancel
  | requestAndSlice : CancelledBy engine engine.requestCancel.slice.1
  | requestAndKey (key : Key) : CancelledBy engine (engine.requestCancel.press key).1

theorem press_escape (engine : Engine Token State) :
    (engine.press .escape).1 = engine.cancel ∨
      (engine.press .escape).1 = engine ∧ engine.status.isActive = false := by
  cases wanted : engine.cancelRequested || engine.status.isActive with
  | true =>
      left
      simp [press, wanted, withNext]
  | false =>
      right
      rw [Bool.or_eq_false_iff] at wanted
      rcases wanted with ⟨unrequested, inactive⟩
      refine ⟨?_, inactive⟩
      cases phase : engine.phase with
      | suspended run prompt => simp [status, phase, Phase.status, Status.isActive] at inactive
      | idle | running | completed | failed | cancelled =>
          simp [press, unrequested, inactive, phase, withNext]

/-- All ways to cancel a run are the same. -/
theorem CancelledBy.eq_cancel {ending : Engine Token State}
    (cancelled : engine.CancelledBy ending) :
    ending = engine.cancel ∨ ending = engine ∧ engine.status.isActive = false := by
  have requested : engine.requestCancel.cancelRequested = true := rfl
  cases cancelled with
  | escape => exact press_escape engine
  | call => exact Or.inl rfl
  | requestAndSlice =>
      left
      rw [slice_of_requested requested]
      rfl
  | requestAndKey key =>
      left
      rw [press_of_requested requested]
      rfl

theorem Typed.discarded {ending : Engine Token State} (typed : asked.Typed form engine)
    (consistent : engine.Consistent) (mirrored : engine.Mirrored)
    (cancelled : engine.CancelledBy ending) : Discarded asked.output ending := by
  rcases cancelled.eq_cancel with rfl | ⟨rfl, inactive⟩
  · have ended : engine.cancel.phase = .cancelled := by
      rw [cancel_phase]
      split
      · rfl
      · rename_i inactive
        exact typed.kept.eq_cancelled (Bool.eq_false_iff.mpr inactive)
    have output_eq := (cancel_cancels mirrored.published).output_eq.trans typed.output_eq
    exact discarded_of_cancelled consistent.cancel mirrored.cancel ended output_eq
  · exact discarded_of_cancelled consistent mirrored (typed.kept.eq_cancelled inactive)
      typed.output_eq

/-- As long as the run is not cancelled, it is where it was. -/
theorem Typed.status_or (typed : asked.Typed form engine)
    (suspended : asked.status = .suspended (.line form)) :
    engine.status = .cancelled ∨
      engine.status = asked.status ∧ engine.phase.run? = asked.phase.run? := by
  have kept := typed.kept
  rw [suspended, status]
  generalize engine.phase = phase at kept ⊢
  cases kept with
  | waiting asks same =>
      right
      rw [asks]
      exact ⟨congrArg Status.suspended same, rfl⟩
  | cancelled => exact Or.inl rfl

/--
Let a run of a fresh engine wait for a line, and let slices be called for and any keys be pressed
but the enter and the escape key. As long as the run is not cancelled, which happens only if it was
asked for before or by the observer, it stays where it is, with its counter, its state and its
number of instructions; the output stays as it was in any case, and no answer is given. If the host
then cancels the run in one of the ways there are, that output is all that is shown and all that the
events show.
-/
theorem typing_traceless (dialect : Dialect) (options : Options) (random : RandomStream)
    (observer : Observer) (clock : Clock) {calls typing : List Call}
    {answers typedAnswers : List Answer} {engine after : Engine dialect.Token dialect.State}
    {form : LineForm}
    (history :
      (create dialect.language options random observer clock).History calls answers engine)
    (suspended : engine.status = .suspended (.line form))
    (typed : engine.History typing typedAnswers after)
    (types : ∀ call ∈ typing, call.types = true) :
    after.output = engine.output ∧ after.statistics = engine.statistics ∧ typedAnswers = [] ∧
      (after.status = .cancelled ∨
        after.status = engine.status ∧ after.phase.run? = engine.phase.run?) ∧
      (engine.cancelRequested = false →
        (∀ memory echo, engine.observer.cancelsAt memory (.console (.echoed echo)) = false) →
          after.status = engine.status) ∧
      ∀ ending, after.CancelledBy ending → Discarded engine.output ending := by
  have mirrored := history.mirrored (mirrored_create dialect options random observer clock)
  have consistent := history.consistent (consistent_create dialect options random observer clock)
  rcases typed.typed mirrored suspended types with ⟨isTyped, noAnswers⟩
  refine ⟨isTyped.output_eq, isTyped.statistics_eq, noAnswers, isTyped.status_or suspended, ?_, ?_⟩
  · intro unrequested unasked
    rw [suspended]
    exact (isTyped.uncancelled unrequested unasked).2
  · intro ending cancelled
    exact isTyped.discarded (typed.consistent consistent) (typed.mirrored mirrored) cancelled

/-- A minus and two digits are typed, one digit is rubbed out, and the escape key is pressed. -/
theorem typing_traceless_of_escape :
    let fresh := create Dialect.standard.language {} .zeros {} Clock.stopped
    let engine := (fresh.start "n = $:;").1.slice.1
    let typing := [.char '-', .char '4', .char 'x', .char '2', .backspace].map Call.press
    ∃ after, engine.History typing [] after ∧
      engine.status = .suspended (.line .decimal) ∧ engine.output = "n = " ∧
      after.console.echo = "-4" ∧ Discarded "n = " (after.press .escape).1 := by
  intro fresh engine typing
  let after :=
    (((((engine.press (.char '-')).1.press (.char '4')).1.press (.char 'x')).1.press
      (.char '2')).1.press .backspace).1
  have suspended : engine.status = .suspended (.line .decimal) := by decide +kernel
  have output_eq : engine.output = "n = " := by decide +kernel
  have echo_eq : after.console.echo = "-4" := by decide +kernel
  have history : fresh.History [.start "n = $:;", .slice] [] engine :=
    (History.nil.snoc (.start "n = $:;")).snoc .slice
  obtain ⟨answers, typed⟩ : ∃ answers, engine.History typing answers after :=
    ⟨_, ((((History.nil.snoc (.press _)).snoc (.press _)).snoc (.press _)).snoc (.press _)).snoc
      (.press _)⟩
  clear_value after engine
  rcases typing_traceless .standard {} .zeros {} Clock.stopped history suspended
    typed (by decide) with ⟨_, _, rfl, _, _, discards⟩
  have discarded := discards _ .escape
  rw [output_eq] at discarded
  exact ⟨after, typed, suspended, output_eq, echo_eq, discarded⟩

end Engine

end Esoterica
