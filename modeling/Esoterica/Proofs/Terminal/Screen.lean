import Esoterica.Proofs.Dialect
import Esoterica.Proofs.Engine.Chronicle
import Esoterica.Terminal.Session

/-!
# The screen prints what the program writes

A screen leaves out the addition to the output that repeats a committed line. It finds that addition
by its text alone, so that a program which writes the same text at once could be mistaken for it.
This does not happen: a kept line is added right behind its commitment, in the same breath, and the
screen never waits for one when a token is executed.

`Watched` follows a host that looks at the events from time to time while the engine acts, and
collects the texts that tokens write. Everything else that an engine does prints nothing.
-/

namespace Esoterica

namespace Change

/-- The text that the change adds to the output. -/
def text? : Change → Option String
  | appended text => some text
  | truncated _ | cleared | echoed _ | committed _ _ => none

def isCommitted : Change → Bool
  | committed _ _ => true
  | appended _ | truncated _ | cleared | echoed _ => false

/-- The change has to do neither with texts nor with lines. -/
def IsQuiet (change : Change) : Prop :=
  change.text? = none ∧ change.isCommitted = false

end Change

namespace Screen

theorem watch_append (screen : Screen) (earlier later : Array Event) :
    screen.watch (earlier ++ later) = (screen.watch earlier).watch later :=
  Array.foldl_append

/-- Where no line is committed, the screen prints every text that is added. -/
theorem watch_changes {changes : List Change}
    (uncommitted : ∀ change ∈ changes, change.isCommitted = false) (printed : String) :
    watch { printed } (changes.map Event.console).toArray =
      { printed := printed ++ String.join (changes.filterMap Change.text?) } := by
  simp only [watch, List.foldl_toArray']
  induction changes generalizing printed with
  | nil => simp
  | cons change rest ih =>
      rcases List.forall_mem_cons.mp uncommitted with ⟨here, later⟩
      cases change with
      | committed line kept => cases here
      | appended text =>
          have texts : (Change.appended text :: rest).filterMap Change.text? =
              text :: rest.filterMap Change.text? := rfl
          rw [texts, String.join_cons, ← String.append_assoc]
          exact ih later (printed ++ text)
      | truncated | cleared | echoed =>
          rw [List.filterMap_cons_none rfl]
          exact ih later printed

theorem watch_quiet {changes : List Change} (quiet : ∀ change ∈ changes, change.IsQuiet)
    (printed : String) :
    watch { printed } (changes.map Event.console).toArray = { printed } := by
  have noText : changes.filterMap Change.text? = [] :=
    List.filterMap_eq_nil_iff.mpr fun change mem => (quiet change mem).1
  rw [watch_changes fun change mem => (quiet change mem).2, noText]
  simp

end Screen

namespace Console

/-- What the console has recorded later was recorded before, or is quiet. -/
def Hushes (before after : Console) : Prop :=
  ∀ change ∈ after.changes, change ∈ before.changes ∨ change.IsQuiet

theorem Hushes.quiet {before after : Console} (hushes : before.Hushes after)
    (published : before.changes = #[]) : ∀ change ∈ after.changes.toList, change.IsQuiet := by
  intro change mem
  rcases hushes change (Array.mem_toList_iff.mp mem) with earlier | quiet
  · simp [published] at earlier
  · exact quiet

theorem hushes_setEcho (console : Console) (echo : String) :
    console.Hushes (console.setEcho echo) := by
  intro change mem
  rcases Array.mem_push.mp mem with earlier | rfl
  · exact Or.inl earlier
  · exact Or.inr ⟨rfl, rfl⟩

theorem hushes_dropEcho (console : Console) : console.Hushes console.dropEcho := by
  unfold dropEcho
  split
  · exact fun _ => Or.inl
  · exact hushes_setEcho console ""

theorem hushes_clear (console : Console) : console.Hushes console.clear := by
  unfold clear
  split
  · exact fun _ => Or.inl
  · intro change mem
    rcases Array.mem_push.mp mem with earlier | rfl
    · exact Or.inl earlier
    · exact Or.inr ⟨rfl, rfl⟩

theorem hushes_wipe (console : Console) : console.Hushes console.wipe := by
  intro change mem
  rcases hushes_clear console.dropEcho change mem with earlier | quiet
  · exact hushes_dropEcho console change earlier
  · exact Or.inr quiet

theorem hushes_press (console : Console) (prompt : Prompt) (key : Key) :
    console.Hushes (prompt.press key console).2.2 := by
  rcases prompt.press_console key console with unchanged | ⟨echo, changed⟩
  · rw [unchanged]
    exact fun _ => Or.inl
  · rw [changed]
    exact hushes_setEcho console echo

/-- A committed line is not printed, whether it is kept or not. -/
theorem watch_commit {console : Console} (published : console.changes = #[]) (keep : Bool)
    (printed : String) :
    Screen.watch { printed } ((console.commit keep).changes.toList.map Event.console).toArray =
      { printed } := by
  unfold commit
  simp only
  split
  · exact Screen.watch_quiet ((hushes_dropEcho console).quiet published) printed
  · rename_i nonempty
    have echoed : console.dropEcho.changes = #[.echoed ""] := by
      simp [dropEcho, nonempty, setEcho, published]
    cases keep with
    | false => simp [echoed, Screen.watch, Screen.see, Screen.seeChange]
    | true => simp [echoed, write, nonempty, Screen.watch, Screen.see, Screen.seeChange]

theorem edit_uncommitted {console : Console} (published : console.changes = #[]) (edit : Edit) :
    ∀ change ∈ (edit.apply console).changes, change.isCommitted = false := by
  cases edit with
  | write text =>
      simp only [Edit.apply, write]
      split
      · simp [published]
      · simp [published, Change.isCommitted]
  | keepFirst length =>
      simp only [Edit.apply, keepFirst]
      split
      · simp [published]
      · simp [published, Change.isCommitted]
  | clear =>
      simp only [Edit.apply, clear]
      split
      · simp [published]
      · simp [published, Change.isCommitted]

end Console

namespace Engine

variable {Token State : Type}

/-- The texts that the next token of a run adds to the output. -/
def written (engine : Engine Token State) (run : Run Token State) (token : Token) : List String :=
  ((engine.attempt run token).2.console.changes.toList.drop engine.console.changes.size).filterMap
    Change.text?

/--
A host watches an engine: the engine acts, and at times the screen sees the events, which the engine
then forgets. The texts are those that tokens have written so far.
-/
inductive Watched (first : Engine Token State) :
    List String → Screen → Engine Token State → Prop where
  | nil : Watched first [] {} first
  | execute {texts : List String} {screen : Screen} {engine : Engine Token State}
      {run : Run Token State} {token : Token} (watched : Watched first texts screen engine)
      (running : engine.phase = .running run) (unrequested : engine.cancelRequested = false)
      (current : run.program.current? = some token) :
      Watched first (texts ++ engine.written run token) screen engine.tick.1
  | other {texts : List String} {screen : Screen} {before after : Engine Token State}
      {acts : List (Act Token)} (watched : Watched first texts screen before)
      (does : before.Does acts after) (noToken : ∀ act ∈ acts, act.isExecuted = false) :
      Watched first texts screen after
  | look {texts : List String} {screen : Screen} {engine : Engine Token State}
      (watched : Watched first texts screen engine) :
      Watched first texts (screen.watch engine.events) engine.forgetEvents

/-- The screen has printed a text when it has seen all events, and waits for no line. -/
structure Displays (printed : String) (screen : Screen) (engine : Engine Token State) : Prop where
  tame : ∀ token, (engine.language.execute token).Tame
  published : engine.console.changes = #[]
  shows : screen.watch engine.events = { printed }

namespace Displays

variable {printed later : String} {screen : Screen} {engine after : Engine Token State}

theorem emit {events : List Event} (displays : Displays printed screen engine)
    (sameLanguage : after.language = engine.language) (sameEvents : after.events = engine.events)
    (published : after.console.changes = #[])
    (shows : Screen.watch { printed } events.toArray = { printed := later }) :
    Displays later screen (after.emit events) where
  tame := by
    rw [emit_language, sameLanguage]
    exact displays.tame
  published := published
  shows := by
    rw [Engine.emit, sameEvents, Screen.watch_append, displays.shows, shows]

theorem publish (displays : Displays printed screen engine)
    (sameLanguage : after.language = engine.language) (sameEvents : after.events = engine.events)
    (shows : Screen.watch { printed } (after.console.changes.toList.map Event.console).toArray =
      { printed := later }) : Displays later screen after.publish := by
  rw [publish_eq]
  exact displays.emit sameLanguage sameEvents rfl shows

/-- What is done to the console without a text or a line is not seen on the screen. -/
theorem hush (displays : Displays printed screen engine)
    (sameLanguage : after.language = engine.language) (sameEvents : after.events = engine.events)
    (hushes : engine.console.Hushes after.console) : Displays printed screen after.publish :=
  displays.publish sameLanguage sameEvents
    (Screen.watch_quiet (hushes.quiet displays.published) printed)

theorem enter (displays : Displays printed screen engine) (phase : Phase Token State) :
    Displays printed screen (engine.enter phase) := by
  rw [enter_eq]
  refine displays.emit ?_ ?_ ?_ ?_
  · rfl
  · rfl
  · exact displays.published
  · unfold announcement
    split
    · rfl
    · rfl

theorem fail (displays : Displays printed screen engine) (failure : Failure) :
    Displays printed screen (engine.fail failure) := by
  have dropped : Displays printed screen (engine.updateConsole Console.dropEcho) :=
    displays.hush rfl rfl (Console.hushes_dropEcho engine.console)
  have reported : Displays printed screen
      ((engine.updateConsole Console.dropEcho).report (.failed failure.message)) := by
    rw [report_eq]
    exact dropped.emit rfl rfl dropped.published rfl
  exact reported.enter _

theorem cancel (displays : Displays printed screen engine) :
    Displays printed screen engine.cancel := by
  cases active : engine.status.isActive with
  | true =>
      rw [cancel_of_active active]
      apply Displays.enter
      exact displays.hush rfl rfl (Console.hushes_dropEcho engine.console)
  | false =>
      rw [cancel_of_inactive active]
      exact ⟨displays.tame, displays.published, displays.shows⟩

theorem start (displays : Displays printed screen engine) (source : String) :
    Displays printed screen (engine.start source).1 := by
  have wiped : Displays printed screen engine.wiped :=
    displays.hush rfl rfl (Console.hushes_wipe engine.console)
  rw [start_eq]
  cases engine.language.read source with
  | ok program =>
      simp only
      exact wiped.enter _
  | error error =>
      simp only
      exact wiped.fail _

theorem answer {run : Run Token State} {prompt : Prompt} {key : Key} {answer : Answer}
    (displays : Displays printed screen engine) (suspended : engine.phase = .suspended run prompt)
    (commits : engine.committed? key = some answer) :
    Displays printed screen (engine.respond key).1 := by
  have committed : Displays printed screen
      (Engine.publish { engine with console := engine.consoleAfter prompt.request }) := by
    cases asks : prompt.request with
    | char => exact displays.hush rfl rfl fun _ => Or.inl
    | line form =>
        exact displays.publish rfl rfl (Console.watch_commit displays.published _ printed)
  rcases respond_of_commits suspended commits with ⟨state, _, responds⟩ | ⟨fault, _, responds⟩
  · simp only [responds]
    exact committed.enter _
  · simp only [responds]
    exact committed.fail _

/-- The texts of a token are printed: no line is waited for when it is executed. -/
theorem adopt {run : Run Token State} {token : Token} {result : Except Fault Flow}
    {machine : Machine Token State} (displays : Displays printed screen engine)
    (attempts : engine.attempt run token = (result, machine)) :
    Displays (printed ++ String.join (engine.written run token)) screen (engine.adopt machine) := by
  have onlyThese : engine.written run token =
      machine.console.changes.toList.filterMap Change.text? := by
    simp [written, attempts, displays.published]
  have uncommitted : ∀ change ∈ machine.console.changes.toList, change.isCommitted = false := by
    have performs := Language.perform_console (displays.tame token)
      (engine.machineAt run.program.step run.state)
    rw [show engine.language.perform token _ = _ from attempts] at performs
    rcases performs with unchanged | ⟨edit, edited⟩
    · simp [show machine.console = engine.console from unchanged, displays.published]
    · intro change mem
      rw [show machine.console = edit.apply engine.console from edited] at mem
      exact Console.edit_uncommitted displays.published edit change (Array.mem_toList_iff.mp mem)
  rw [onlyThese]
  refine displays.publish ?_ ?_ ?_
  · rfl
  · rfl
  · exact Screen.watch_changes uncommitted printed

theorem execute {run : Run Token State} {token : Token} {next? : Option Next}
    (displays : Displays printed screen engine) (current : run.program.current? = some token)
    (ticked : Ticked engine run (after, next?)) :
    Displays (printed ++ String.join (engine.written run token)) screen after := by
  cases ticked with
  | finished atEnd | unfinished atEnd => simp [atEnd] at current
  | proceeded currentToo attempts | yielded currentToo attempts =>
      cases currentToo.symm.trans current
      exact displays.adopt attempts
  | asked currentToo attempts | halted currentToo attempts =>
      cases currentToo.symm.trans current
      exact (displays.adopt attempts).enter _
  | failed currentToo attempts =>
      cases currentToo.symm.trans current
      exact (displays.adopt attempts).fail _

theorem conclude {run : Run Token State} {next? : Option Next}
    (displays : Displays printed screen engine) (atEnd : run.program.current? = none)
    (ticked : Ticked engine run (after, next?)) : Displays printed screen after := by
  cases ticked with
  | finished => exact displays.enter _
  | unfinished => exact displays.fail _
  | proceeded current | yielded current | asked current | halted current | failed current =>
      simp [atEnd] at current

/-- Whatever is not the execution of a token prints nothing. -/
theorem does {acts : List (Act Token)} (displays : Displays printed screen engine)
    (does : engine.Does acts after) (noToken : ∀ act ∈ acts, act.isExecuted = false) :
    Displays printed screen after := by
  cases does with
  | start source => exact displays.start source
  | execute => cases noToken _ List.mem_cons_self
  | conclude running unrequested atEnd => exact displays.conclude atEnd (tick_ticked running)
  | answer suspended commits => exact displays.answer suspended commits
  | edit suspended unrequested uncommitted =>
      exact displays.hush rfl rfl (Console.hushes_press engine.console _ _)
  | cancel => exact displays.cancel
  | countSlice | requestCancel => exact ⟨displays.tame, displays.published, displays.shows⟩
  | clearOutput => exact displays.hush rfl rfl (Console.hushes_clear engine.console)

end Displays

variable {first engine : Engine Token State} {texts : List String} {screen : Screen}

/-- The texts that tokens have written are what the screen has printed. -/
theorem Watched.displays (watched : first.Watched texts screen engine)
    (displays : Displays "" {} first) : Displays (String.join texts) screen engine := by
  induction watched with
  | nil => exact displays
  | execute watched running unrequested current ih =>
      rw [String.join_append]
      exact ih.execute current (tick_ticked running)
  | other watched does noToken ih => exact ih.does does noToken
  | look watched ih => exact ⟨ih.tame, ih.published, ih.shows⟩

theorem displays_create (dialect : Dialect) (options : Options) (random : RandomStream)
    (observer : Observer) (clock : Clock) :
    Displays "" {} (create dialect.language options random observer clock) :=
  ⟨dialect.tame_execute, rfl, rfl⟩

/-! ### Sessions -/

theorem Watched.cancel (watched : first.Watched texts screen engine) :
    first.Watched texts screen engine.cancel := by
  apply watched.other .cancel
  intro act mem
  split at mem
  · cases List.mem_singleton.mp mem
    rfl
  · cases mem

theorem Watched.does {acts : List (Act Token)} {after : Engine Token State}
    (watched : first.Watched texts screen engine) (does : engine.Does acts after) :
    ∃ texts, first.Watched texts screen after := by
  by_cases noToken : ∀ act ∈ acts, act.isExecuted = false
  · exact ⟨texts, watched.other does noToken⟩
  · cases does with
    | execute running unrequested current => exact ⟨_, watched.execute running unrequested current⟩
    | cancel => exact ⟨texts, watched.cancel⟩
    | start | conclude | answer | edit | countSlice | requestCancel | clearOutput =>
        simp [Act.isExecuted] at noToken

theorem Watched.chronicle {acts : List (Act Token)} {after : Engine Token State}
    (watched : first.Watched texts screen engine) (chronicle : engine.Chronicle acts after) :
    ∃ texts, first.Watched texts screen after := by
  induction chronicle with
  | nil => exact ⟨texts, watched⟩
  | snoc chronicle does ih =>
      rcases ih with ⟨_, watchedBefore⟩
      exact watchedBefore.does does

theorem Watched.makes {call : Call} {after : Engine Token State}
    (watched : first.Watched texts screen engine) (makes : engine.Makes call after) :
    ∃ texts, first.Watched texts screen after := by
  rcases makes.exists_chronicle with ⟨_, chronicle, _⟩
  exact watched.chronicle chronicle

/-- A session ends when all events were seen, but for those of a cancellation at the end of keys. -/
theorem Watched.takeAll {fuel : Nat} {turn : Turn Token State} {session : Session Token State}
    (watched : first.Watched texts turn.screen turn.engine)
    (ends : turn.takeAll fuel = some session) :
    ∃ texts last, first.Watched texts session.screen last ∧ last.events = #[] ∧
      (session.engine = last ∨ session.engine = last.cancel) := by
  induction fuel generalizing turn texts with
  | zero => cases ends
  | succ fuel ih =>
      rcases turn with ⟨engine, next, keyboard, screen⟩
      simp only [Turn.takeAll, Turn.display, Turn.take] at ends
      cases next with
      | done status =>
          cases ends
          exact ⟨texts, _, watched.look, rfl, Or.inl rfl⟩
      | slice =>
          rcases watched.look.makes .slice with ⟨_, watchedLater⟩
          exact ih watchedLater ends
      | key request =>
          generalize keyboard.take = taken at ends
          rcases taken with ⟨_ | ⟨_ | key⟩, keyboardLater⟩
          · cases ends
            exact ⟨texts, _, watched.look, rfl, Or.inl rfl⟩
          · cases ends
            exact ⟨texts, _, watched.look, rfl, Or.inr rfl⟩
          · rcases watched.look.makes (.press key) with ⟨_, watchedLater⟩
            exact ih watchedLater ends

/--
While a fresh engine acts in any way and a screen sees its events, the screen has at each moment
printed the texts that tokens have written, one after the other, and nothing else. That is so in
particular of every session that comes to its end, with any source, keys and options.
-/
theorem printed_exactly (dialect : Dialect) (options : Options) (random : RandomStream)
    (observer : Observer) (clock : Clock) :
    let fresh := create dialect.language options random observer clock
    (∀ texts screen engine, fresh.Watched texts screen engine →
      screen.watch engine.events = { printed := String.join texts }) ∧
    ∀ fuel source keyboard session, fresh.converse fuel source keyboard = some session →
      (∃ texts, fresh.Watched texts session.screen session.engine) ∧
        ∀ texts, fresh.Watched texts session.screen session.engine →
          session.printed = String.join texts := by
  intro fresh
  have began : Displays "" {} fresh := displays_create dialect options random observer clock
  refine ⟨fun _ _ _ watched => (watched.displays began).shows, ?_⟩
  intro fuel source keyboard session converses
  have started : fresh.Watched [] {} (fresh.start source).1 :=
    Watched.nil.other (.start source) (by simp [Act.isExecuted])
  rcases Watched.takeAll started converses with ⟨texts, last, watched, seen, ends⟩
  have printed : session.screen = { printed := String.join texts } := by
    have shows := (watched.displays began).shows
    rwa [seen] at shows
  have watchedEnd : fresh.Watched texts session.screen session.engine := by
    rcases ends with same | cancelled
    · rwa [same]
    · rw [cancelled]
      exact watched.cancel
  refine ⟨⟨texts, watchedEnd⟩, ?_⟩
  intro others watchedToo
  have same := (watchedEnd.displays began).shows.symm.trans (watchedToo.displays began).shows
  rw [Session.printed, printed, same]

/-- A number is typed and kept in the output, and the program writes it once more. -/
theorem printed_exactly_of_number :
    let fresh := create Dialect.standard.language {} .zeros {} Clock.stopped
    let session? := fresh.converse 9 "$:,;" { unread := [], pending := ['4', '2', '\n'] }
    session?.map (fun session => (session.engine.output, session.printed)) = some ("4242", "42") ∧
      ∃ session, session? = some session ∧
        ∃ texts, fresh.Watched texts session.screen session.engine ∧ String.join texts = "42" := by
  intro fresh session?
  have shown : session?.map (fun session => (session.engine.output, session.printed)) =
      some ("4242", "42") := by decide +kernel
  refine ⟨shown, ?_⟩
  rcases Option.map_eq_some_iff.mp shown with ⟨session, converses, shows⟩
  have exactly := printed_exactly .standard {} .zeros {} Clock.stopped
  rcases exactly.2 _ _ _ _ converses with ⟨⟨texts, watched⟩, printed⟩
  refine ⟨session, converses, texts, watched, ?_⟩
  rw [← printed texts watched]
  exact congrArg Prod.snd shows

end Engine

end Esoterica
