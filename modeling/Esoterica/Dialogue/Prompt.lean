import Esoterica.Binary64.Reading
import Esoterica.Machine.Console
import Esoterica.Dialogue.Key

/-!
# Prompts

A program asks either for a single key or for a line. A prompt is such a request together with the
number of characters typed so far in answer to it. Keys are pressed one by one; in a line they edit
the echo of the console until the enter key commits it.
-/

namespace Esoterica

inductive LineForm where
  /-- Any characters. -/
  | text
  /-- Digits, a minus in front and one point; read as a number. -/
  | decimal
  /-- Digits; read as a number, and zero when there are none. -/
  | digits
deriving DecidableEq

/-- What a program asks for. -/
inductive Request where
  | char
  | line (form : LineForm)
deriving DecidableEq

/-- An answer to a request. -/
inductive Entry where
  | char (c : Char)
  | text (line : String)
  | number (value : Binary64)
deriving DecidableEq

namespace LineForm

/-- The answer that a committed line stands for. -/
def entry (form : LineForm) (line : String) : Entry :=
  match form with
  | text => .text line
  | decimal => .number ((Binary64.read? line.toList).getD .nan)
  | digits => .number ((Binary64.read? line.toList).getD 0)

/-- Whether a character may be typed when `typed` characters of the line are there. -/
def allows (form : LineForm) (typed : Nat) (line : String) (c : Char) : Bool :=
  match form with
  | text => true
  | digits => c.isDigit
  | decimal => c.isDigit || (c == '-' && typed == 0) || (c == '.' && !line.contains '.')

end LineForm

/-- What a key did to a prompt. -/
inductive Reaction where
  | ignored
  /-- The key changed the line. -/
  | edited
  | committed (entry : Entry)
deriving DecidableEq

structure Prompt where
  request : Request
  /-- The number of characters of the echo that were typed for this request. -/
  typed : Nat := 0
deriving DecidableEq

namespace Prompt

/-- Presses a key at a prompt for a line. -/
def pressLine (prompt : Prompt) (form : LineForm) (key : Key) (console : Console) :
    Reaction × Prompt × Console :=
  let insert (c : Char) :=
    if form.allows prompt.typed console.echo c then
      (.edited, { prompt with typed := prompt.typed + 1 }, console.echoChar c)
    else
      (.ignored, prompt, console)
  match key with
  | .escape => (.ignored, prompt, console)
  | .backspace =>
    if prompt.typed = 0 then (.ignored, prompt, console)
    else
      match console.rubOut? with
      | some console => (.edited, { prompt with typed := prompt.typed - 1 }, console)
      | none => (.ignored, prompt, console)
  | .enter => (.committed (form.entry console.echo), { prompt with typed := 0 }, console)
  | .tab => insert '\t'
  | .char c => insert c

/-- Presses a key at a prompt. -/
def press (prompt : Prompt) (key : Key) (console : Console) : Reaction × Prompt × Console :=
  match prompt.request with
  | .char =>
    match key.toChar? with
    | some c => (.committed (.char c), prompt, console)
    | none => (.ignored, prompt, console)
  | .line form => prompt.pressLine form key console

end Prompt

end Esoterica
