import Esoterica.Proofs.Dialect
import Esoterica.Proofs.Engine.Transcript
import Esoterica.Proofs.Terminal.Keyboard
import Esoterica.Terminal.Session

/-!
# The keys of a session

A session presses one key each time the program waits for one. It takes them from the keyboard in
order, none is lost and none is pressed twice, and the session ends when the program does or when
no key can be had.
-/

namespace Esoterica

namespace Status

theorem isActive_of_next_eq_done {status final : Status} (done : status.next = .done final) :
    status.isActive = false := by
  cases status with
  | running | suspended => cases done
  | idle | completed | failed | cancelled => rfl

theorem eq_suspended_of_next {status : Status} {request : Request}
    (waits : status.next = .key request) : status = .suspended request := by
  cases status with
  | suspended => cases waits; rfl
  | running | idle | completed | failed | cancelled => cases waits

end Status

namespace Engine

variable {Token State : Type}

/-- Slices as long as they are called for, and a key each time one is waited for. -/
inductive Driven (first : Engine Token State × Next) :
    List Key → Engine Token State × Next → Prop where
  | nil : Driven first [] first
  | slice {keys : List Key} {engine : Engine Token State}
      (driven : Driven first keys (engine, .slice)) : Driven first keys engine.slice
  | press {keys : List Key} {engine : Engine Token State} {request : Request}
      (driven : Driven first keys (engine, .key request)) (key : Key) :
      Driven first (keys ++ [key]) (engine.press key)

theorem Driven.next_eq {first last : Engine Token State × Next} {keys : List Key}
    (driven : Driven first keys last) (next : first.2 = first.1.status.next) :
    last.2 = last.1.status.next := by
  cases driven with
  | nil => exact next
  | slice driven => exact slice_next _
  | press driven key => exact press_next _ key

theorem cancel_status_of_suspended {engine : Engine Token State} {request : Request}
    (suspended : engine.status = .suspended request) : engine.cancel.status = .cancelled := by
  rw [status, cancel_phase, suspended]
  rfl

/-- How a session ends when its last call has returned and there are keys left or not. -/
inductive Ends (last : Engine Token State × Next) (flaw : Option InvalidText) :
    List Key → Session Token State → Prop where
  | done {status : Status} {keys : List Key} {keyboard : Keyboard} {screen : Screen}
      (done : last.2 = .done status) (holds : keyboard.Holds keys flaw) :
      Ends last flaw keys { engine := last.1.forgetEvents, keyboard, screen }
  | usedUp {request : Request} {keyboard : Keyboard} {screen : Screen}
      (waits : last.2 = .key request) (whole : flaw = none) :
      Ends last flaw [] { engine := last.1.forgetEvents.cancel, keyboard, screen }
  | unreadable {request : Request} {invalid : InvalidText} {keyboard : Keyboard} {screen : Screen}
      (waits : last.2 = .key request) (flawed : flaw = some invalid) :
      Ends last flaw []
        { engine := last.1.forgetEvents, keyboard, screen, unreadable := some invalid }

theorem Driven.takeAll {first : Engine Token State × Next} {turn : Turn Token State}
    {earlier : Array Event} {pressed keys : List Key} {fuel : Nat} {flaw : Option InvalidText}
    {session : Session Token State}
    (driven : Driven first pressed (turn.engine.recalling earlier, turn.next))
    (holds : turn.keyboard.Holds keys flaw) (finishes : turn.takeAll fuel = some session) :
    ∃ more rest last, keys = more ++ rest ∧ Driven first (pressed ++ more) last ∧
      Ends last flaw rest session := by
  induction fuel generalizing turn earlier pressed keys with
  | zero => cases finishes
  | succ fuel ih =>
      rcases turn with ⟨engine, next, keyboard, screen⟩
      -- A session forgets the events it has seen; for the calls it makes they are still there.
      have seen : engine.recalling earlier =
          engine.forgetEvents.recalling (earlier ++ engine.events) := by
        simp [recalling, forgetEvents]
      simp only [Turn.takeAll, Turn.display, Turn.take] at finishes
      cases next with
      | done status =>
          cases finishes
          exact ⟨[], keys, _, rfl, by simpa using driven, .done rfl holds⟩
      | slice =>
          have sliced := driven.slice
          rw [seen, slice_recalling] at sliced
          exact @ih ⟨_, _, keyboard, _⟩ _ _ _ sliced holds finishes
      | key request =>
          have taken := holds.taken
          generalize keyboard.take = answer at taken finishes
          cases taken with
          | key holdsAfter =>
              rename_i key rest after
              have presses := driven.press key
              rw [seen, press_recalling] at presses
              rcases @ih ⟨_, _, after, _⟩ _ _ _ presses holdsAfter finishes with
                ⟨more, rest, last, rfl, driven, ends⟩
              refine ⟨key :: more, rest, last, rfl, ?_, ends⟩
              simpa using driven
          | ended =>
              cases flaw with
              | none =>
                  cases finishes
                  exact ⟨[], [], _, rfl, by simpa using driven, .usedUp rfl rfl⟩
              | some invalid =>
                  cases finishes
                  exact ⟨[], [], _, rfl, by simpa using driven, .unreadable rfl rfl⟩

theorem Ends.inactive {last : Engine Token State × Next} {flaw : Option InvalidText}
    {keys : List Key} {session : Session Token State} (ends : Ends last flaw keys session)
    (next : last.2 = last.1.status.next) (readable : session.unreadable = none) :
    session.engine.status.isActive = false := by
  cases ends with
  | done done holds => exact Status.isActive_of_next_eq_done (next.symm.trans done)
  | usedUp waits whole =>
      have suspended := Status.eq_suspended_of_next (next.symm.trans waits)
      have cancelled : last.1.forgetEvents.cancel.status = .cancelled :=
        cancel_status_of_suspended suspended
      simp [cancelled, Status.isActive]
  | unreadable waits flawed => cases readable

theorem Ends.status_of_key {last : Engine Token State × Next} {flaw : Option InvalidText}
    {keys : List Key} {session : Session Token State} {request : Request}
    (ends : Ends last flaw keys session) (next : last.2 = last.1.status.next)
    (waits : last.2 = .key request) :
    keys = [] ∧ session.unreadable = flaw ∧
      session.engine.status = if flaw.isSome then .suspended request else .cancelled := by
  have suspended := Status.eq_suspended_of_next (next.symm.trans waits)
  cases ends with
  | done done holds => cases waits.symm.trans done
  | usedUp _ whole =>
      subst whole
      exact ⟨rfl, rfl, cancel_status_of_suspended suspended⟩
  | unreadable _ flawed =>
      subst flawed
      exact ⟨rfl, rfl, suspended⟩

/--
Calls for the next key give the keys of the text before the first line that is not UTF-8, in order,
and then the end or that line's flaw. A session that comes to its end has pressed the first of these
keys, one each time the program waited. It ends with an inactive engine or at the flaw; if the keys
run out while the program waits, the run is cancelled at the end and still suspended at the flaw.
-/
theorem keys_pressed_in_order (engine : Engine Token State) (source : String)
    (bytes : List UInt8) :
    (∃ text flaw, Keyboard.Reads (Keyboard.lines bytes) text flaw) ∧
    ∀ text flaw, Keyboard.Reads (Keyboard.lines bytes) text flaw →
      let keyboard : Keyboard := { unread := bytes }
      let keys := Key.typed text
      keyboard.takes (keys.length + 1) =
        keys.map (fun key => .ok (some key)) ++ [Keyboard.closing flaw] ∧
      ∀ fuel session, engine.converse fuel source keyboard = some session →
        (session.unreadable = none → session.engine.status.isActive = false) ∧
        ∃ pressed rest last, keys = pressed ++ rest ∧
          Driven (engine.start source) pressed last ∧ Ends last flaw rest session ∧
          ∀ request, last.2 = .key request →
            rest = [] ∧ session.unreadable = flaw ∧
              session.engine.status = if flaw.isSome then .suspended request else .cancelled := by
  refine ⟨Keyboard.exists_reads _, ?_⟩
  intro text flaw reads keyboard keys
  have holds : keyboard.Holds keys flaw := ⟨text, reads, rfl⟩
  refine ⟨holds.takes_eq, ?_⟩
  intro fuel session converses
  have begun : Driven (engine.start source) []
      ((engine.start source).1.recalling #[], (engine.start source).2) := by
    simpa [recalling] using Driven.nil
  rcases Driven.takeAll begun holds converses with ⟨pressed, rest, last, isKeys, driven, ends⟩
  have next : last.2 = last.1.status.next := driven.next_eq (start_next engine source)
  refine ⟨ends.inactive next, pressed, rest, last, isKeys, driven, ends, ?_⟩
  intro request waits
  exact ends.status_of_key next waits

/-- A program waits for a third character, and the second line is not UTF-8. -/
theorem keys_pressed_in_order_of_invalid_line :
    let fresh := create Dialect.brainfuck.language {} .zeros {} Clock.stopped
    let keyboard : Keyboard := { unread := [97, 13, 10, 255, 10, 98] }
    Keyboard.Reads (Keyboard.lines keyboard.unread) ['a', '\r', '\n'] (some {}) ∧
      keyboard.takes 3 = [.ok (some (.char 'a')), .ok (some .enter), .error {}] ∧
      ∃ session, fresh.converse 9 ",,," keyboard = some session ∧
        session.engine.status = .suspended .char ∧ session.unreadable = some {} ∧
        ∃ pressed rest last, [.char 'a', .enter] = pressed ++ rest ∧
          Driven (fresh.start ",,,") pressed last ∧ Ends last (some {}) rest session := by
  intro fresh keyboard
  have undecoded : Keyboard.decode? [255, 10] = none := by decide +kernel
  have reads : Keyboard.Reads (Keyboard.lines keyboard.unread) ['a', '\r', '\n'] (some {}) := by
    refine .line ['a', '\r', '\n'] (.invalid ?_)
    intro text encodes
    cases (Keyboard.decode?_eq_some_iff.mpr encodes).symm.trans undecoded
  have observed : (fresh.converse 9 ",,," keyboard).map
      (fun session => (session.engine.status, session.unreadable)) =
        some (.suspended .char, some {}) := by decide +kernel
  rcases Option.map_eq_some_iff.mp observed with ⟨session, converses, ended⟩
  rcases (keys_pressed_in_order fresh ",,," keyboard.unread).2 _ _ reads with ⟨takes, sessions⟩
  rcases sessions 9 session converses with ⟨_, pressed, rest, last, keys, driven, ends, _⟩
  exact ⟨reads, takes, session, converses, congrArg Prod.fst ended, congrArg Prod.snd ended,
    pressed, rest, last, keys, driven, ends⟩

end Engine

end Esoterica
