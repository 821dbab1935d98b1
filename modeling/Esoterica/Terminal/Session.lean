import Esoterica.Engine.Basic
import Esoterica.Terminal.Keyboard
import Esoterica.Terminal.Screen

/-!
# Sessions

In a session a program is run with a keyboard and a screen: slices as long as they are called for, a
key whenever the program waits for one, and a cancellation when there are no more keys.
-/

namespace Esoterica

/-- How a program ended in a session. -/
structure Session (Token State : Type) where
  engine : Engine Token State
  keyboard : Keyboard
  screen : Screen
  /-- Why the keys could not be read, if that is why the session ended. -/
  unreadable : Option InvalidText := none

namespace Session

variable {Token State : Type}

/-- What the screen shows. -/
def printed (session : Session Token State) : String :=
  session.screen.printed

end Session

/-- A session that goes on: what its last call left, and what comes next. -/
structure Turn (Token State : Type) where
  engine : Engine Token State
  next : Next
  keyboard : Keyboard
  screen : Screen := {}

namespace Turn

variable {Token State : Type}

/-- Shows the events of the last call on the screen. -/
def display (turn : Turn Token State) : Turn Token State :=
  { turn with
    engine := turn.engine.forgetEvents
    screen := turn.screen.watch turn.engine.events }

/-- Makes the call that comes next, or ends the session. -/
def take (turn : Turn Token State) : Turn Token State ⊕ Session Token State :=
  let { engine, next, keyboard, screen } := turn
  match next with
  | .slice =>
    let (engine, next) := engine.slice
    .inl { engine, next, keyboard, screen }
  | .key _ =>
    match keyboard.take with
    | (.ok (some key), keyboard) =>
      let (engine, next) := engine.press key
      .inl { engine, next, keyboard, screen }
    | (.ok none, keyboard) => .inr { engine := engine.cancel, keyboard, screen }
    | (.error unreadable, keyboard) => .inr { engine, keyboard, screen, unreadable }
  | .done _ => .inr { engine, keyboard, screen }

/--
Goes on until the session ends, in at most `fuel` calls; nothing if that was too few. The screen
shows the events of every call before the next one.
-/
def takeAll : (fuel : Nat) → Turn Token State → Option (Session Token State)
  | 0, _ => none
  | fuel + 1, turn =>
    match turn.display.take with
    | .inl turn => takeAll fuel turn
    | .inr session => some session

end Turn

namespace Engine

variable {Token State : Type}

/-- Starts a program; nothing of it has been shown yet. -/
def firstTurn (engine : Engine Token State) (source : String) (keyboard : Keyboard) :
    Turn Token State :=
  let (engine, next) := engine.start source
  { engine, next, keyboard }

/-- Starts a program and runs it until it ends. -/
def converse (fuel : Nat) (engine : Engine Token State) (source : String) (keyboard : Keyboard) :
    Option (Session Token State) :=
  (engine.firstTurn source keyboard).takeAll fuel

end Engine

end Esoterica
