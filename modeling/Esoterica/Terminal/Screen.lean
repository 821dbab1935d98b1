import Esoterica.Engine.Event

/-!
# Screens

A screen prints what a program adds to its output. It already shows what was typed, so the line that
a committed input adds to the output is not printed a second time; what is printed stays, whatever
is removed from the output later.
-/

namespace Esoterica

structure Screen where
  printed : String := ""
  /-- The committed line that the next addition to the output repeats. -/
  committed : Option String := none

namespace Screen

def print (screen : Screen) (text : String) : Screen :=
  { screen with printed := screen.printed ++ text }

def seeChange (screen : Screen) : Change → Screen
  | .appended text =>
    let expected := screen.committed
    let screen := { screen with committed := none }
    if expected = some text then screen else screen.print text
  | .truncated _ | .cleared => { screen with committed := none }
  | .committed line kept => { screen with committed := if kept then some line else none }
  | .echoed _ => screen

def see (screen : Screen) : Event → Screen
  | .console change => screen.seeChange change
  | .failed _ | .status _ => screen

/-- A screen after it has seen events. -/
def watch (screen : Screen) (events : Array Event) : Screen :=
  events.foldl see screen

end Screen

end Esoterica
