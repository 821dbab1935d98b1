import Esoterica.Proofs.Dialect
import Esoterica.Proofs.Engine.Slots

/-!
# Engines are consistent

What an engine keeps apart fits together after every call: there is a run exactly while the status
is running or suspended, a prompt exactly while it is suspended, and the message of an error exactly
while it is failed. The echo holds what was typed at the prompt for a line, character by character
and in the form that was asked for, and nothing otherwise. The counter of the run stays inside its
program.
-/

namespace Esoterica

namespace LineForm

/-- A minus or nothing, then digits, then perhaps a point with digits behind it. -/
def IsDecimal (line : List Char) : Prop :=
  ∃ sign whole fraction, line = sign ++ whole ++ fraction ∧
    (sign = [] ∨ sign = ['-']) ∧ (∀ c ∈ whole, c.isDigit = true) ∧
    (fraction = [] ∨ ∃ digits, fraction = '.' :: digits ∧ ∀ c ∈ digits, c.isDigit = true)

/-- The lines of a form, also those that are not complete yet. -/
def Admits (form : LineForm) (line : List Char) : Prop :=
  match form with
  | text => True
  | digits => ∀ c ∈ line, c.isDigit = true
  | decimal => IsDecimal line

theorem admits_nil (form : LineForm) : form.Admits [] := by
  cases form with
  | text => trivial
  | digits =>
      intro c mem
      cases mem
  | decimal => exact ⟨[], [], [], rfl, Or.inl rfl, by simp, Or.inl rfl⟩

theorem IsDecimal.append_digit {line : List Char} {c : Char} (isDecimal : IsDecimal line)
    (digit : c.isDigit = true) : IsDecimal (line ++ [c]) := by
  rcases isDecimal with ⟨sign, whole, fraction, rfl, signed, wholeDigits, fractional⟩
  have digitsToo {digits : List Char} (areDigits : ∀ c ∈ digits, c.isDigit = true) :
      ∀ other ∈ digits ++ [c], other.isDigit = true :=
    List.forall_mem_append.mpr ⟨areDigits, by simpa using digit⟩
  rcases fractional with rfl | ⟨digits, rfl, fractionDigits⟩
  · exact ⟨sign, whole ++ [c], [], by simp, signed, digitsToo wholeDigits, Or.inl rfl⟩
  · exact ⟨sign, whole, '.' :: (digits ++ [c]), by simp, signed, wholeDigits,
      Or.inr ⟨digits ++ [c], rfl, digitsToo fractionDigits⟩⟩

theorem IsDecimal.append_point {line : List Char} (isDecimal : IsDecimal line)
    (pointless : '.' ∉ line) : IsDecimal (line ++ ['.']) := by
  rcases isDecimal with ⟨sign, whole, fraction, rfl, signed, wholeDigits, fractional⟩
  rcases fractional with rfl | ⟨digits, rfl, _⟩
  · exact ⟨sign, whole, ['.'], by simp, signed, wholeDigits, Or.inr ⟨[], rfl, by simp⟩⟩
  · simp at pointless

theorem IsDecimal.dropLast {line : List Char} (isDecimal : IsDecimal line) :
    IsDecimal line.dropLast := by
  rcases isDecimal with ⟨sign, whole, fraction, rfl, signed, wholeDigits, fractional⟩
  rcases fractional with rfl | ⟨digits, rfl, fractionDigits⟩
  · rcases List.eq_nil_or_concat whole with rfl | ⟨kept, last, rfl⟩
    · refine ⟨[], [], [], ?_, Or.inl rfl, by simp, Or.inl rfl⟩
      rcases signed with rfl | rfl
      · rfl
      · rfl
    · refine ⟨sign, kept, [], by simp, signed, ?_, Or.inl rfl⟩
      intro c mem
      exact wholeDigits c (by simp [mem])
  · refine ⟨sign, whole, ('.' :: digits).dropLast, List.dropLast_append_cons, signed, wholeDigits,
      ?_⟩
    rcases digits with _ | ⟨first, more⟩
    · exact Or.inl rfl
    · refine Or.inr ⟨(first :: more).dropLast, rfl, ?_⟩
      intro c mem
      exact fractionDigits c (List.dropLast_subset _ mem)

/-- A character that may be typed leads from a line of the form to another one. -/
theorem Admits.append {form : LineForm} {line : String} {c : Char}
    (admits : form.Admits line.toList) (allowed : form.allows line.length line c = true) :
    form.Admits (line.toList ++ [c]) := by
  cases form with
  | text => trivial
  | digits => exact List.forall_mem_append.mpr ⟨admits, by simpa [allows] using allowed⟩
  | decimal =>
      simp only [allows, Bool.or_eq_true, Bool.and_eq_true, beq_iff_eq, Bool.not_eq_true',
        String.contains_char_eq, decide_eq_false_iff_not] at allowed
      rcases allowed with (digit | ⟨rfl, untyped⟩) | ⟨rfl, pointless⟩
      · exact IsDecimal.append_digit admits digit
      · have isEmpty : line.toList = [] := by
          rw [← List.length_eq_zero_iff, String.length_toList, untyped]
        rw [isEmpty]
        exact ⟨['-'], [], [], rfl, Or.inr rfl, by simp, Or.inl rfl⟩
      · exact IsDecimal.append_point admits pointless

theorem Admits.dropLast {form : LineForm} {line : List Char} (admits : form.Admits line) :
    form.Admits line.dropLast := by
  cases form with
  | text => trivial
  | digits =>
      intro c mem
      exact admits c (List.dropLast_subset line mem)
  | decimal => exact IsDecimal.dropLast admits

end LineForm

namespace Console

theorem write_echo (console : Console) (text : String) :
    (console.write text).echo = console.echo := by
  simp only [write]
  split
  · rfl
  · rfl

theorem keepFirst_echo (console : Console) (length : Nat) :
    (console.keepFirst length).echo = console.echo := by
  simp only [keepFirst]
  split
  · rfl
  · rfl

theorem commit_echo (console : Console) (keep : Bool) : (console.commit keep).echo = "" := by
  simp only [commit]
  split
  · exact dropEcho_echo console
  · split
    · rw [write_echo]
      exact dropEcho_echo console
    · exact dropEcho_echo console

end Console

namespace Prompt

/-- The echo is what was typed at the prompt; while a character is asked for there is none. -/
def Shows (prompt : Prompt) (echo : String) : Prop :=
  match prompt.request with
  | .char => echo = ""
  | .line form => prompt.typed = echo.length ∧ form.Admits echo.toList

theorem shows_empty (request : Request) : Prompt.Shows { request } "" := by
  cases request with
  | char => rfl
  | line form => exact ⟨rfl, form.admits_nil⟩

theorem Shows.insert {form : LineForm} {typed : Nat} {echo : String} {c : Char}
    (shown : Shows ⟨.line form, typed⟩ echo) (allowed : form.allows typed echo c = true) :
    Shows ⟨.line form, typed + 1⟩ (echo.push c) := by
  rcases shown with ⟨rfl, admits⟩
  constructor
  · simp
  · simpa using admits.append allowed

theorem Shows.rubOut {form : LineForm} {typed : Nat} {echo : String}
    (shown : Shows ⟨.line form, typed⟩ echo) :
    Shows ⟨.line form, typed - 1⟩ (echo.dropEnd 1).copy := by
  rcases shown with ⟨rfl, admits⟩
  have kept : (echo.dropEnd 1).copy.toList = echo.toList.dropLast := by
    rw [String.toList_copy_dropEnd, List.dropLast_eq_take]
  constructor
  · change echo.length - 1 = (echo.dropEnd 1).copy.length
    rw [← String.length_toList, ← String.length_toList, kept, List.length_dropLast]
  · rw [kept]
    exact admits.dropLast

/-- A key that commits nothing keeps the prompt and the echo together. -/
theorem Shows.press {prompt : Prompt} {key : Key} {console : Console}
    (shown : prompt.Shows console.echo)
    (uncommitted : ∀ entry, (prompt.press key console).1 ≠ .committed entry) :
    (prompt.press key console).2.1.Shows (prompt.press key console).2.2.echo := by
  rcases prompt with ⟨_ | form, typed⟩
  · simp only [Prompt.press]
    split
    · exact shown
    · exact shown
  · simp only [Prompt.press, pressLine] at uncommitted ⊢
    cases key with
    | escape => exact shown
    | enter => exact absurd rfl (uncommitted _)
    | backspace =>
        simp only [Console.rubOut?]
        split
        · exact shown
        · by_cases isEmpty : console.echo.isEmpty = true
          · simp only [isEmpty, if_true]
            exact shown
          · simp only [isEmpty, Bool.false_eq_true, if_false]
            exact shown.rubOut
    | tab =>
        simp only
        split
        · rename_i allowed
          exact shown.insert allowed
        · exact shown
    | char c =>
        simp only
        split
        · rename_i allowed
          exact shown.insert allowed
        · exact shown

end Prompt

namespace Language

variable {Token State : Type}

/-- A token does not touch the echo. -/
theorem perform_echo {language : Language Token State} {token : Token}
    (tame : (language.execute token).Tame) (machine : Machine Token State) :
    (language.perform token machine).2.console.echo = machine.console.echo := by
  rcases perform_console tame machine with unchanged | ⟨edit, edited⟩
  · rw [unchanged]
  · rw [edited]
    cases edit with
    | write text => exact Console.write_echo machine.console text
    | keepFirst length => exact Console.keepFirst_echo machine.console length
    | clear => exact Console.clear_echo machine.console

end Language

namespace Phase

variable {Token State : Type}

/-- The run of the phase is inside its program, and the phase accounts for the echo. -/
def Fits (phase : Phase Token State) (echo : String) : Prop :=
  match phase with
  | .running run => run.program.Inside ∧ echo = ""
  | .suspended run prompt => run.program.Inside ∧ prompt.Shows echo
  | .idle | .completed | .failed _ | .cancelled => echo = ""

theorem isSome_active_iff {phase : Phase Token State} :
    phase.active?.isSome = true ↔
      phase.status = .running ∨ ∃ request, phase.status = .suspended request := by
  cases phase <;> simp [active?, status]

theorem suspension_active (phase : Phase Token State) :
    phase.active?.bind (·.suspension) = phase.prompt? := by
  cases phase <;> rfl

theorem request_prompt_iff {phase : Phase Token State} {request : Request} :
    phase.prompt?.map Prompt.request = some request ↔ phase.status = .suspended request := by
  cases phase <;> simp [prompt?, status]

theorem isSome_failure_iff {phase : Phase Token State} :
    phase.failure?.isSome = true ↔ phase.status = .failed := by
  cases phase <;> simp [failure?, status]

theorem Fits.inside {phase : Phase Token State} {echo : String} {run : ActiveRun Token State}
    (fits : phase.Fits echo) (active : phase.active? = some run) : run.program.Inside := by
  cases phase with
  | idle | completed | failed | cancelled => cases active
  | running | suspended =>
      cases active
      exact fits.1

/-- There is no echo unless a line is asked for. -/
theorem Fits.echo_eq {phase : Phase Token State} {echo : String} (fits : phase.Fits echo)
    (noLine : ∀ form, phase.status ≠ .suspended (.line form)) : echo = "" := by
  cases phase with
  | idle | completed | failed | cancelled => exact fits
  | running run => exact fits.2
  | suspended run prompt =>
      rcases prompt with ⟨_ | form, typed⟩
      · exact fits.2
      · exact absurd rfl (noLine form)

/-- The echo is what was typed while a line is asked for. -/
theorem Fits.shows_line {phase : Phase Token State} {echo : String} {form : LineForm}
    (fits : phase.Fits echo) (asked : phase.status = .suspended (.line form)) :
    phase.prompt?.map Prompt.typed = some echo.length ∧ form.Admits echo.toList := by
  cases phase with
  | idle | completed | failed | cancelled | running => cases asked
  | suspended run prompt =>
      rcases prompt with ⟨request, typed⟩
      cases asked
      rcases fits.2 with ⟨counted, admits⟩
      exact ⟨congrArg some counted, admits⟩

end Phase

namespace Engine

variable {Token State : Type}

/-- The language keeps to its rules, and the phase of the engine fits its console. -/
structure Consistent (engine : Engine Token State) : Prop where
  tame : ∀ token, (engine.language.execute token).Tame
  steers : ∀ token, (engine.language.execute token).Steers
  fits : engine.phase.Fits engine.console.echo

section

variable {engine : Engine Token State} (tame : ∀ token, (engine.language.execute token).Tame)
  (steers : ∀ token, (engine.language.execute token).Steers)

include tame steers

theorem consistent_enter {phase : Phase Token State} (fits : phase.Fits engine.console.echo) :
    (engine.enter phase).Consistent := by
  constructor
  · simpa using tame
  · simpa using steers
  · simpa using fits

/-- Failing leaves no run and no echo, whatever there was before. -/
theorem consistent_fail (failure : Failure) : (engine.fail failure).Consistent := by
  constructor
  · simpa using tame
  · simpa using steers
  · simp [Phase.Fits]

end

theorem Consistent.publish {engine after : Engine Token State} (consistent : engine.Consistent)
    (sameLanguage : after.language = engine.language)
    (fits : after.phase.Fits after.console.echo) : after.publish.Consistent := by
  constructor
  · simpa [sameLanguage] using consistent.tame
  · simpa [sameLanguage] using consistent.steers
  · simpa using fits

theorem Consistent.cancel {engine : Engine Token State} (consistent : engine.Consistent) :
    engine.cancel.Consistent := by
  simp only [Engine.cancel]
  split
  · apply consistent_enter
    · simpa [updateConsole] using consistent.tame
    · simpa [updateConsole] using consistent.steers
    · simp [updateConsole, Phase.Fits]
  · exact ⟨consistent.tame, consistent.steers, consistent.fits⟩

/-- What the next token of a run leaves is inside its program, and there is still no echo. -/
theorem Consistent.attempt {engine : Engine Token State} {run : Run Token State} {token : Token}
    {result : Except Fault Flow} {machine : Machine Token State} (consistent : engine.Consistent)
    (running : engine.phase = .running run) (current : run.program.current? = some token)
    (attempts : engine.attempt run token = (result, machine)) :
    machine.program.Inside ∧ machine.console.echo = "" := by
  have fits := consistent.fits
  simp only [running, Phase.Fits] at fits
  let before := engine.machineAt run.program.step run.state
  have leads := Language.perform_program (consistent.steers token) before
  have sameEcho := Language.perform_echo (consistent.tame token) before
  rw [show engine.language.perform token before = _ from attempts] at leads sameEcho
  exact ⟨leads.inside (Program.inside_step current), sameEcho.trans fits.2⟩

theorem keptBySlices_consistent :
    KeptBySlices (fun engine : Engine Token State => engine.Consistent) where
  cancel engine consistent := consistent.cancel
  countSlice engine consistent := ⟨consistent.tame, consistent.steers, consistent.fits⟩
  ticked engine run result running _ ticked consistent := by
    have fits := consistent.fits
    simp only [running, Phase.Fits] at fits
    have tame {machine : Machine Token State} (token : Token) :
        ((engine.adopt machine).language.execute token).Tame := by
      simpa using consistent.tame token
    have steers {machine : Machine Token State} (token : Token) :
        ((engine.adopt machine).language.execute token).Steers := by
      simpa using consistent.steers token
    cases ticked with
    | finished atEnd accepts => exact consistent_enter consistent.tame consistent.steers fits.2
    | unfinished atEnd refuses => exact consistent_fail consistent.tame consistent.steers _
    | proceeded current attempts | yielded current attempts =>
        have left := consistent.attempt running current attempts
        exact ⟨tame, steers, by simpa [Phase.Fits, runOf] using left⟩
    | asked current attempts =>
        rename_i token machine request
        have left := consistent.attempt running current attempts
        apply consistent_enter tame steers
        simp only [adopt_console, left.2]
        exact ⟨left.1, Prompt.shows_empty request⟩
    | halted current attempts =>
        apply consistent_enter tame steers
        simpa [Phase.Fits] using (consistent.attempt running current attempts).2
    | failed current attempts => exact consistent_fail tame steers _

/-- No echo is left when the answer to a request has been committed. -/
theorem consoleAfter_echo {engine : Engine Token State} {prompt : Prompt}
    (shown : prompt.Shows engine.console.echo) :
    (engine.consoleAfter prompt.request).echo = "" := by
  rcases prompt with ⟨_ | form, typed⟩
  · exact shown
  · exact Console.commit_echo engine.console engine.language.keepsLines

theorem Consistent.commitTo {engine : Engine Token State} {run : Run Token State} {prompt : Prompt}
    (consistent : engine.Consistent) (suspended : engine.phase = .suspended run prompt)
    (entry : Entry) : (engine.commitTo run prompt.request entry).1.Consistent := by
  have fits := consistent.fits
  simp only [suspended, Phase.Fits] at fits
  simp only [Engine.commitTo]
  split
  · apply consistent_enter
    · simpa using consistent.tame
    · simpa using consistent.steers
    · simp only [publish_console]
      exact ⟨fits.1, consoleAfter_echo fits.2⟩
  · apply consistent_fail
    · simpa using consistent.tame
    · simpa using consistent.steers

theorem Consistent.respondAt {engine : Engine Token State} {run : Run Token State}
    {prompt : Prompt} (consistent : engine.Consistent)
    (suspended : engine.phase = .suspended run prompt) (key : Key) :
    (engine.respondAt run prompt key).1.Consistent := by
  have fits := consistent.fits
  simp only [suspended, Phase.Fits] at fits
  have edited : (∀ entry, (prompt.press key engine.console).1 ≠ .committed entry) → _ :=
    fits.2.press
  simp only [Engine.respondAt]
  rcases presses : prompt.press key engine.console with ⟨reaction, pressed, console⟩
  simp only [presses] at edited
  cases reaction with
  | committed entry => exact consistent.commitTo suspended entry
  | ignored | edited =>
      refine consistent.publish ?_ ?_
      · rfl
      · exact ⟨fits.1, edited (by simp)⟩

theorem Consistent.respond {engine : Engine Token State} (consistent : engine.Consistent)
    (key : Key) : (engine.respond key).1.Consistent := by
  simp only [Engine.respond]
  split
  · exact consistent.cancel
  · split
    · rename_i suspended
      split
      · exact consistent.respondAt suspended key
      · exact consistent
    · exact consistent

theorem Consistent.start {engine : Engine Token State} (consistent : engine.Consistent)
    (source : String) : (engine.start source).1.Consistent := by
  have tame (token : Token) : (engine.wiped.language.execute token).Tame := by
    simpa using consistent.tame token
  have steers (token : Token) : (engine.wiped.language.execute token).Steers := by
    simpa using consistent.steers token
  have noEcho : engine.wiped.console.echo = "" := by
    simp [wiped, updateConsole, Console.wipe]
  rw [start_eq]
  cases engine.language.read source with
  | ok program =>
      simp only
      apply consistent_enter tame steers
      simp only [Phase.Fits, noEcho, and_true]
      exact Nat.zero_le _
  | error error =>
      simp only
      exact consistent_fail tame steers _

theorem Consistent.makes {engine after : Engine Token State} {call : Call}
    (consistent : engine.Consistent) (makes : engine.Makes call after) : after.Consistent := by
  cases makes with
  | start source => exact consistent.start source
  | slice => exact keptBySlices_consistent.slice consistent
  | untilBlocked blocks => exact keptBySlices_consistent.blocks blocks consistent
  | press key => exact keptBySlices_consistent.press (consistent.respond key)
  | cancel => exact consistent.cancel
  | requestCancel => exact ⟨consistent.tame, consistent.steers, consistent.fits⟩
  | clearOutput =>
      refine consistent.publish ?_ ?_
      · rfl
      · simpa using consistent.fits

theorem History.consistent {first engine : Engine Token State} {calls : List Call}
    {answers : List Answer} (history : first.History calls answers engine)
    (consistent : first.Consistent) : engine.Consistent := by
  induction history with
  | nil => exact consistent
  | snoc history makes ih => exact ih.makes makes

theorem consistent_create (dialect : Dialect) (options : Options) (random : RandomStream)
    (observer : Observer) (clock : Clock) :
    (create dialect.language options random observer clock).Consistent where
  tame := dialect.tame_execute
  steers := dialect.steers_execute
  fits := rfl

/--
After any calls of a fresh engine that stores its parts in separate slots: there is a run exactly
while the status is running or suspended, and it has a prompt for a request exactly while the status
is suspended at it; the echo is empty unless a line is asked for, and then it has as many characters
as the prompt has counted and the form of that line; there is an error exactly while the status is
failed; and the counter of the run is inside its program. The slots are those of an engine with
phases of which the same calls were made.
-/
theorem representation_consistent (dialect : Dialect) (options : Options) (random : RandomStream)
    (observer : Observer) (clock : Clock) {calls : List Call}
    {slots : Slots dialect.Token dialect.State}
    (history :
      (Slots.create dialect.language options random observer clock).History calls slots) :
    (slots.active.isSome = true ↔
        slots.status = .running ∨ ∃ request, slots.status = .suspended request) ∧
      (∀ request, slots.suspension?.map Prompt.request = some request ↔
        slots.status = .suspended request) ∧
      ((∀ form, slots.status ≠ .suspended (.line form)) → slots.console.echo = "") ∧
      (∀ form, slots.status = .suspended (.line form) →
        slots.suspension?.map Prompt.typed = some slots.console.echo.length ∧
          form.Admits slots.console.echo.toList) ∧
      (slots.error.isSome = true ↔ slots.status = .failed) ∧
      (∀ run, slots.active = some run → run.program.counter ≤ run.program.tokens.size) ∧
      ∃ answers engine,
        (create dialect.language options random observer clock).History calls answers engine ∧
          slots = engine.slots := by
  let fresh := create dialect.language options random observer clock
  obtain ⟨answers, engine, engineHistory, rfl⟩ :
      ∃ answers engine, fresh.History calls answers engine ∧ slots = engine.slots :=
    history_slots_iff.mp history
  have consistent := consistent_create dialect options random observer clock
  have fits := (engineHistory.consistent consistent).fits
  have suspension : engine.slots.suspension? = engine.phase.prompt? :=
    engine.phase.suspension_active
  have error : engine.slots.error.isSome = engine.phase.failure?.isSome := Option.isSome_map
  rw [suspension, error]
  exact ⟨Phase.isSome_active_iff, fun _ => Phase.request_prompt_iff, fits.echo_eq,
    fun _ => fits.shows_line, Phase.isSome_failure_iff, fun _ => fits.inside,
    answers, engine, engineHistory, rfl⟩

/--
A number of which a minus and a digit are typed, so that the prompt has counted two characters; then
a program is started that cannot be read, and nothing of that run is left.
-/
theorem representation_consistent_of_half_typed :
    let fresh := Slots.create Dialect.standard.language {} .zeros {} Clock.stopped
    let typing := (((fresh.start "$:;").1.slice.1.press (.char '-')).1.press (.char '7')).1
    let failed := (typing.start "$").1
    (∃ calls, fresh.History calls typing) ∧ typing.status = .suspended (.line .decimal) ∧
      typing.console.echo = "-7" ∧
      typing.suspension?.map Prompt.typed = some typing.console.echo.length ∧
      (∃ calls, fresh.History calls failed) ∧ failed.status = .failed ∧
      failed.active.isSome = false ∧ failed.error.isSome = true ∧ failed.console.echo = "" := by
  intro fresh typing failed
  let first := create Dialect.standard.language {} .zeros {} Clock.stopped
  let engine := (((first.start "$:;").1.slice.1.press (.char '-')).1.press (.char '7')).1
  have typed : typing = engine.slots := by
    have isFirst : fresh = first.slots := rfl
    simp only [typing, isFirst, start_slots, slice_slots, press_slots, slotsAt]
    rfl
  have refused : failed = (engine.start "$").1.slots := by
    simp only [failed, typed, start_slots, slotsAt]
  have status : typing.status = .suspended (.line .decimal) := by
    rw [typed]
    decide +kernel
  have echo : typing.console.echo = "-7" := by
    rw [typed]
    decide +kernel
  have failedStatus : failed.status = .failed := by
    rw [refused]
    decide +kernel
  obtain ⟨calls, history⟩ : ∃ calls, fresh.History calls typing :=
    ⟨_, (((Slots.History.nil.snoc (.start "$:;")).snoc .slice).snoc (.press (.char '-'))).snoc
      (.press (.char '7'))⟩
  have failedHistory : fresh.History (calls ++ [.start "$"]) failed := history.snoc (.start "$")
  clear_value failed typing
  have consistent := representation_consistent .standard {} .zeros {} Clock.stopped history
  have failedConsistent :=
    representation_consistent .standard {} .zeros {} Clock.stopped failedHistory
  have counted := (consistent.2.2.2.1 .decimal status).1
  have noRun : failed.active.isSome = false := by
    rw [Bool.eq_false_iff, ne_eq, failedConsistent.1, failedStatus]
    simp
  have hasError : failed.error.isSome = true := failedConsistent.2.2.2.2.1.mpr failedStatus
  have noEcho : failed.console.echo = "" := failedConsistent.2.2.1 (by simp [failedStatus])
  exact ⟨⟨calls, history⟩, status, echo, counted, ⟨_, failedHistory⟩, failedStatus, noRun, hasError,
    noEcho⟩

end Engine

end Esoterica
