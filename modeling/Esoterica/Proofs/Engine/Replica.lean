import Esoterica.Proofs.Dialect
import Esoterica.Proofs.Engine.History

/-!
# Replicas

A host that knows nothing of an engine but its events can keep a replica of what the engine shows:
the output, the echo and the status. The replica is exact after every call, whatever calls were
made. Each operation of the console records changes that take the replica from the console before to
the console after; an engine reports them before it returns, and before it reports another status.
-/

namespace Esoterica

/-- What a host can show that has seen only events. -/
structure Replica where
  output : String := ""
  echo : String := ""
  status : Status := .idle

namespace Replica

def see (replica : Replica) : Event → Replica
  | .console (.appended text) => { replica with output := replica.output ++ text }
  | .console (.truncated length) =>
    { replica with output := String.ofList (replica.output.toList.take length) }
  | .console .cleared => { replica with output := "" }
  | .console (.echoed echo) => { replica with echo }
  | .console (.committed _ _) | .failed _ => replica
  | .status status => { replica with status }

/-- The replica after it has seen events in order. -/
def watch (replica : Replica) (events : List Event) : Replica :=
  events.foldl see replica

/--
Whether an event makes sense to a replica, given the events behind it: texts that are added are not
empty, a truncation removes something, a kept line is added at once, and a status is a new one.
-/
def Fits (replica : Replica) (event : Event) (later : List Event) : Prop :=
  match event with
  | .console (.appended text) => text ≠ ""
  | .console (.truncated length) => length < replica.output.length
  | .console (.committed line kept) =>
    kept = true → later.head? = some (.console (.appended line))
  | .status status => status ≠ replica.status
  | .console .cleared | .console (.echoed _) | .failed _ => True

/-- All events make sense, one after the other. -/
def Lawful (replica : Replica) : List Event → Prop
  | [] => True
  | event :: later => replica.Fits event later ∧ (replica.see event).Lawful later

theorem watch_append (replica : Replica) (earlier later : List Event) :
    replica.watch (earlier ++ later) = (replica.watch earlier).watch later :=
  List.foldl_append

theorem Fits.append {replica : Replica} {event : Event} {later : List Event}
    (fits : replica.Fits event later) (more : List Event) :
    replica.Fits event (later ++ more) := by
  unfold Fits at fits ⊢
  split at fits
  · exact fits
  · exact fits
  · intro kept
    rw [List.head?_append, fits kept]
    rfl
  · exact fits
  · trivial
  · trivial
  · trivial

theorem Lawful.append {replica : Replica} {earlier later : List Event}
    (lawful : replica.Lawful earlier) (lawfulLater : (replica.watch earlier).Lawful later) :
    replica.Lawful (earlier ++ later) := by
  induction earlier generalizing replica with
  | nil => exact lawfulLater
  | cons event rest ih => exact ⟨lawful.1.append later, ih lawful.2 lawfulLater⟩

/-- Each event of a lawful sequence fits what the replica shows when it comes. -/
theorem Lawful.fits {replica : Replica} {before later : List Event} {event : Event}
    (lawful : replica.Lawful (before ++ event :: later)) :
    (replica.watch before).Fits event later := by
  induction before generalizing replica with
  | nil => exact lawful.1
  | cons first rest ih => exact ih lawful.2

theorem see_status {event : Event} (unchanged : ∀ status, event ≠ .status status)
    (replica : Replica) : (replica.see event).status = replica.status := by
  unfold see
  split
  · rfl
  · rfl
  · rfl
  · rfl
  · rfl
  · rfl
  · rename_i status
    exact absurd rfl (unchanged status)

theorem watch_status {events : List Event}
    (unchanged : ∀ event ∈ events, ∀ status, event ≠ .status status) (replica : Replica) :
    (replica.watch events).status = replica.status := by
  induction events generalizing replica with
  | nil => rfl
  | cons event rest ih =>
      calc ((replica.see event).watch rest).status
          = (replica.see event).status := ih (fun later mem => unchanged later (by simp [mem])) _
        _ = replica.status := see_status (unchanged event (by simp)) replica

/-- Of two reports of a status with none between them, the second is of another status. -/
theorem Lawful.status_ne {replica : Replica} {before between later : List Event}
    {first second : Status}
    (lawful : replica.Lawful (before ++ .status first :: (between ++ .status second :: later)))
    (none : ∀ event ∈ between, ∀ status, event ≠ .status status) : first ≠ second := by
  have split : before ++ .status first :: (between ++ .status second :: later) =
      (before ++ .status first :: between) ++ .status second :: later := by simp
  rw [split] at lawful
  have fits : second ≠ (replica.watch (before ++ .status first :: between)).status := lawful.fits
  rw [watch_append] at fits
  change second ≠ (((replica.watch before).see (.status first)).watch between).status at fits
  rw [watch_status none] at fits
  exact fits.symm

end Replica

namespace Console

/-- The replica of a console. -/
def replica (console : Console) (status : Status) : Replica where
  output := console.output
  echo := console.echo
  status := status

/--
The changes recorded between two states of a console make sense to a replica of the first and turn
it into a replica of the second.
-/
def Records (before after : Console) : Prop :=
  ∃ changes : List Change,
    after.changes.toList = before.changes.toList ++ changes ∧
      ∀ status, (before.replica status).Lawful (changes.map .console) ∧
        (before.replica status).watch (changes.map .console) = after.replica status

theorem Records.refl (console : Console) : console.Records console :=
  ⟨[], by simp, fun _ => ⟨trivial, rfl⟩⟩

theorem Records.trans {first second third : Console} (earlier : first.Records second)
    (later : second.Records third) : first.Records third := by
  rcases earlier with ⟨earlierChanges, earlierRecorded, earlierShows⟩
  rcases later with ⟨laterChanges, laterRecorded, laterShows⟩
  refine ⟨earlierChanges ++ laterChanges, ?_, ?_⟩
  · rw [laterRecorded, earlierRecorded, List.append_assoc]
  · intro status
    rcases earlierShows status with ⟨earlierLawful, earlierWatched⟩
    rcases laterShows status with ⟨laterLawful, laterWatched⟩
    rw [List.map_append]
    constructor
    · apply earlierLawful.append
      rw [earlierWatched]
      exact laterLawful
    · rw [Replica.watch_append, earlierWatched, laterWatched]

/-- One recorded change that fits and is seen as it happened. -/
theorem Records.single {before after : Console} (change : Change)
    (recorded : after.changes = before.changes.push change)
    (fits : ∀ status, (before.replica status).Fits (.console change) [])
    (seen : ∀ status, (before.replica status).see (.console change) = after.replica status) :
    before.Records after := by
  refine ⟨[change], by simp [recorded], ?_⟩
  intro status
  exact ⟨⟨fits status, trivial⟩, seen status⟩

theorem records_write (console : Console) (text : String) :
    console.Records (console.write text) := by
  unfold write
  split
  · exact .refl console
  · rename_i nonempty
    apply Records.single (.appended text) rfl
    · intro status isEmpty
      exact nonempty (by simp [isEmpty])
    · intro status
      rfl

theorem records_keepFirst (console : Console) (length : Nat) :
    console.Records (console.keepFirst length) := by
  unfold keepFirst
  split
  · exact .refl console
  · rename_i longer
    have shorter : length < console.output.length := by
      simpa [Console.length] using longer
    apply Records.single (.truncated length) rfl
    · intro status
      exact shorter
    · intro status
      have kept : String.ofList (console.output.toList.take length) =
          (console.output.dropEnd (console.length - length)).copy := by
        apply String.toList_injective
        rw [String.toList_ofList, String.toList_copy_dropEnd]
        congr 1
        simp only [String.length_toList, Console.length]
        omega
      simp only [replica, Replica.see, kept]

theorem records_clear (console : Console) : console.Records console.clear := by
  unfold clear
  split
  · exact .refl console
  · apply Records.single .cleared rfl
    · intro status
      trivial
    · intro status
      rfl

theorem records_setEcho (console : Console) (echo : String) :
    console.Records (console.setEcho echo) := by
  apply Records.single (.echoed echo) rfl
  · intro status
    trivial
  · intro status
    rfl

theorem records_dropEcho (console : Console) : console.Records console.dropEcho := by
  unfold dropEcho
  split
  · exact .refl console
  · exact records_setEcho console ""

theorem records_wipe (console : Console) : console.Records console.wipe :=
  (records_dropEcho console).trans (records_clear _)

/-- A line that is kept is added to the output right behind its commitment. -/
theorem records_commit (console : Console) (keep : Bool) :
    console.Records (console.commit keep) := by
  unfold commit
  simp only
  split
  · exact records_dropEcho console
  · rename_i nonempty
    apply (records_dropEcho console).trans
    cases keep with
    | false =>
        apply Records.single (.committed console.echo false) rfl
        · intro status kept
          cases kept
        · intro status
          rfl
    | true =>
        refine ⟨[.committed console.echo true, .appended console.echo], ?_, ?_⟩
        · simp [write, nonempty]
        · intro status
          refine ⟨⟨fun _ => rfl, ?_, trivial⟩, ?_⟩
          · intro isEmpty
            exact nonempty (by simp [isEmpty])
          · simp [write, nonempty, replica, Replica.watch, Replica.see]

theorem records_edit (console : Console) (edit : Edit) : console.Records (edit.apply console) := by
  cases edit with
  | write text => exact records_write console text
  | keepFirst length => exact records_keepFirst console length
  | clear => exact records_clear console

/-- A key at a prompt changes at most the echo. -/
theorem records_press (console : Console) (prompt : Prompt) (key : Key) :
    console.Records (prompt.press key console).2.2 := by
  rcases prompt.press_console key console with unchanged | ⟨echo, changed⟩
  · rw [unchanged]
    exact .refl console
  · rw [changed]
    exact records_setEcho console echo

end Console

namespace Language

variable {Token State : Type}

/-- A tame token records what it does to the console. -/
theorem records_perform {language : Language Token State} {token : Token}
    (tame : (language.execute token).Tame) (machine : Machine Token State) :
    machine.console.Records (language.perform token machine).2.console := by
  rcases perform_console tame machine with unchanged | ⟨edit, edited⟩
  · rw [unchanged]
    exact .refl machine.console
  · rw [edited]
    exact Console.records_edit machine.console edit

end Language

namespace Engine

variable {Token State : Type}

/-- The events so far are lawful and show what the engine shows; no change is left to report. -/
structure Mirrored (engine : Engine Token State) : Prop where
  tame : ∀ token, (engine.language.execute token).Tame
  published : engine.console.changes = #[]
  lawful : Replica.Lawful {} engine.events.toList
  shows : Replica.watch {} engine.events.toList = engine.console.replica engine.status

/-- Events that fit can be reported along with the change they tell of. -/
theorem Mirrored.emit {engine after : Engine Token State} {events : List Event}
    (mirrored : engine.Mirrored) (sameLanguage : after.language = engine.language)
    (sameEvents : after.events = engine.events) (published : after.console.changes = #[])
    (lawful : (engine.console.replica engine.status).Lawful events)
    (shows : (engine.console.replica engine.status).watch events =
      after.console.replica after.status) : (after.emit events).Mirrored where
  tame := by
    rw [emit_language, sameLanguage]
    exact mirrored.tame
  published := published
  lawful := by
    simp only [Engine.emit, sameEvents, Array.toList_append]
    apply mirrored.lawful.append
    rw [mirrored.shows]
    exact lawful
  shows := by
    simp only [Engine.emit, sameEvents, Array.toList_append, Replica.watch_append, mirrored.shows]
    exact shows

/-- A recorded change of the console is mirrored once it is published. -/
theorem Mirrored.publish {engine after : Engine Token State} (mirrored : engine.Mirrored)
    (sameLanguage : after.language = engine.language) (sameEvents : after.events = engine.events)
    (sameStatus : after.status = engine.status)
    (records : engine.console.Records after.console) : after.publish.Mirrored := by
  rcases records with ⟨changes, recorded, shows⟩
  have onlyThese : after.console.changes.toList = changes := by
    rw [recorded, mirrored.published]
    rfl
  rcases shows engine.status with ⟨lawful, watched⟩
  rw [publish_eq, onlyThese]
  refine mirrored.emit sameLanguage sameEvents ?_ lawful ?_
  · rfl
  · rw [watched, ← sameStatus]
    rfl

theorem Mirrored.updateConsole {engine : Engine Token State} (mirrored : engine.Mirrored)
    {change : Console → Console} (records : engine.console.Records (change engine.console)) :
    (engine.updateConsole change).Mirrored :=
  mirrored.publish rfl rfl rfl records

theorem Mirrored.enter {engine : Engine Token State} (mirrored : engine.Mirrored)
    (phase : Phase Token State) : (engine.enter phase).Mirrored := by
  rw [enter_eq]
  unfold announcement
  -- A status is reported only if it is another one, and then the report fits.
  split
  · rename_i same
    refine mirrored.emit ?_ ?_ ?_ trivial ?_
    · rfl
    · rfl
    · exact mirrored.published
    · rw [same]
      rfl
  · rename_i differs
    refine mirrored.emit ?_ ?_ ?_ ⟨?_, trivial⟩ ?_
    · rfl
    · rfl
    · exact mirrored.published
    · exact fun same => differs same.symm
    · rfl

theorem Mirrored.report {engine : Engine Token State} (mirrored : engine.Mirrored)
    (message : String) : (engine.report (.failed message)).Mirrored := by
  rw [report_eq]
  exact mirrored.emit rfl rfl mirrored.published ⟨trivial, trivial⟩ rfl

theorem Mirrored.fail {engine : Engine Token State} (mirrored : engine.Mirrored)
    (failure : Failure) : (engine.fail failure).Mirrored := by
  apply Mirrored.enter
  apply Mirrored.report
  exact mirrored.updateConsole (Console.records_dropEcho engine.console)

theorem Mirrored.cancel {engine : Engine Token State} (mirrored : engine.Mirrored) :
    engine.cancel.Mirrored := by
  have calm : Mirrored { engine with cancelRequested := false } :=
    ⟨mirrored.tame, mirrored.published, mirrored.lawful, mirrored.shows⟩
  unfold Engine.cancel
  simp only
  split
  · apply Mirrored.enter
    exact calm.updateConsole (Console.records_dropEcho engine.console)
  · exact calm

/-- The engine takes back what the next token of its run did. -/
theorem Mirrored.adopt {engine : Engine Token State} {run : Run Token State} {token : Token}
    {result : Except Fault Flow} {machine : Machine Token State} (mirrored : engine.Mirrored)
    (running : engine.phase = .running run)
    (attempts : engine.attempt run token = (result, machine)) :
    (engine.adopt machine).Mirrored := by
  refine mirrored.publish ?_ ?_ ?_ ?_
  · rfl
  · rfl
  · exact (congrArg Phase.status running).symm
  · have records := Language.records_perform (mirrored.tame token)
      (engine.machineAt run.program.step run.state)
    rwa [show engine.language.perform token _ = _ from attempts] at records

theorem keptBySlices_mirrored :
    KeptBySlices (fun engine : Engine Token State => engine.Mirrored) where
  cancel engine mirrored := mirrored.cancel
  countSlice engine mirrored :=
    ⟨mirrored.tame, mirrored.published, mirrored.lawful, mirrored.shows⟩
  ticked engine run result running _ ticked mirrored := by
    cases ticked with
    | finished atEnd accepts => exact mirrored.enter _
    | unfinished atEnd refuses => exact mirrored.fail _
    | proceeded current attempts => exact mirrored.adopt running attempts
    | yielded current attempts => exact mirrored.adopt running attempts
    | asked current attempts => exact (mirrored.adopt running attempts).enter _
    | halted current attempts => exact (mirrored.adopt running attempts).enter _
    | failed current attempts => exact (mirrored.adopt running attempts).fail _

theorem Mirrored.commit {engine : Engine Token State} (mirrored : engine.Mirrored)
    (request : Request) :
    (Engine.publish { engine with console := engine.consoleAfter request }).Mirrored := by
  refine mirrored.publish ?_ ?_ ?_ ?_
  · rfl
  · rfl
  · rfl
  · cases request with
    | line form => exact Console.records_commit engine.console engine.language.keepsLines
    | char => exact .refl engine.console

/-- The response to a key is mirrored. -/
theorem Mirrored.responded {engine : Engine Token State} {key : Key}
    {response : Engine Token State × Bool} (mirrored : engine.Mirrored)
    (responded : Responded engine key response) : response.1.Mirrored := by
  cases responded with
  | cancelled uncommitted => exact mirrored.cancel
  | ignored uncommitted => exact mirrored
  | edited suspended uncommitted =>
      rename_i run prompt
      refine mirrored.publish ?_ ?_ ?_ ?_
      · rfl
      · rfl
      · change Status.suspended (prompt.press key engine.console).2.1.request = engine.status
        rw [Prompt.press_request, status, suspended]
        rfl
      · exact Console.records_press engine.console prompt key
  | accepted suspended commits line receives =>
      rename_i run prompt answer state
      exact (mirrored.commit prompt.request).enter _
  | refused suspended commits line refuses =>
      rename_i run prompt answer fault
      exact (mirrored.commit prompt.request).fail _

theorem Mirrored.start {engine : Engine Token State} (mirrored : engine.Mirrored)
    (source : String) : (engine.start source).1.Mirrored := by
  have wiped : engine.wiped.Mirrored := by
    refine mirrored.publish ?_ ?_ ?_ ?_
    · rfl
    · rfl
    · rfl
    · exact Console.records_wipe engine.console
  rw [start_eq]
  cases engine.language.read source with
  | ok program =>
      simp only
      exact wiped.enter _
  | error error =>
      simp only
      exact wiped.fail _

/-- Every call keeps an engine mirrored. -/
theorem Mirrored.makes {engine after : Engine Token State} {call : Call}
    (mirrored : engine.Mirrored) (makes : engine.Makes call after) : after.Mirrored := by
  cases makes with
  | start source => exact mirrored.start source
  | slice => exact keptBySlices_mirrored.slice mirrored
  | untilBlocked blocks => exact keptBySlices_mirrored.blocks blocks mirrored
  | press key =>
      exact keptBySlices_mirrored.press (mirrored.responded (respond_responded engine key))
  | cancel => exact mirrored.cancel
  | requestCancel => exact ⟨mirrored.tame, mirrored.published, mirrored.lawful, mirrored.shows⟩
  | clearOutput => exact mirrored.updateConsole (Console.records_clear engine.console)

theorem History.mirrored {first engine : Engine Token State} {calls : List Call}
    {answers : List Answer} (history : first.History calls answers engine)
    (mirrored : first.Mirrored) : engine.Mirrored := by
  induction history with
  | nil => exact mirrored
  | snoc history makes ih => exact ih.makes makes

theorem mirrored_create (dialect : Dialect) (options : Options) (random : RandomStream)
    (observer : Observer) (clock : Clock) :
    (create dialect.language options random observer clock).Mirrored where
  tame := dialect.tame_execute
  published := rfl
  lawful := trivial
  shows := rfl

/--
The replica of a host that has seen the events of a fresh engine is exact after any calls, all
events fit, and a status is never reported twice in a row.
-/
theorem replica_exact (dialect : Dialect) (options : Options) (random : RandomStream)
    (observer : Observer) (clock : Clock) {calls : List Call} {answers : List Answer}
    {engine : Engine dialect.Token dialect.State}
    (history :
      (create dialect.language options random observer clock).History calls answers engine) :
    Replica.watch {} engine.events.toList =
        { output := engine.output, echo := engine.console.echo, status := engine.status } ∧
      engine.console.changes = #[] ∧
      (∀ before event later, engine.events.toList = before ++ event :: later →
        (Replica.watch {} before).Fits event later) ∧
      ∀ before first between second later,
        engine.events.toList =
            before ++ .status first :: (between ++ .status second :: later) →
          (∀ event ∈ between, ∀ status, event ≠ .status status) → first ≠ second := by
  have mirrored := history.mirrored (mirrored_create dialect options random observer clock)
  refine ⟨mirrored.shows, mirrored.published, ?_, ?_⟩
  · intro before event later events
    have lawful := mirrored.lawful
    rw [events] at lawful
    exact lawful.fits
  · intro before first between second later events none
    have lawful := mirrored.lawful
    rw [events] at lawful
    exact lawful.status_ne none

/-- The replica of a run that is cancelled while it waits for a character. -/
theorem replica_exact_of_cancelled_input :
    let fresh := create Dialect.brainfuck.language {} .zeros {} Clock.stopped
    let engine := (fresh.start "+.,").1.slice.1.cancel
    fresh.History [.start "+.,", .slice, .cancel] [] engine ∧
      Replica.watch {} engine.events.toList =
        { output := engine.output, echo := engine.console.echo, status := engine.status } := by
  intro fresh engine
  have history : fresh.History [.start "+.,", .slice, .cancel] [] engine :=
    ((History.nil.snoc (.start "+.,")).snoc .slice).snoc .cancel
  exact ⟨history, (replica_exact .brainfuck {} .zeros {} Clock.stopped history).1⟩

end Engine

end Esoterica
