import Esoterica.Machine.TapeState

/-!
# Brainfuck

Eight one-character commands on a tape of bytes; every other character is a comment. A loop is not
matched beforehand: its start is put on a stack when it is executed and taken from it at its end. An
end without a start is passed over, and no program can fail.
-/

namespace Esoterica

namespace Brainfuck

inductive Token where
  | right
  | left
  | increment
  | decrement
  | output
  | input
  | loopStart
  | loopEnd
deriving DecidableEq

namespace Token

def ofChar? : Char → Option Token
  | '>' => some right
  | '<' => some left
  | '+' => some increment
  | '-' => some decrement
  | '.' => some output
  | ',' => some input
  | '[' => some loopStart
  | ']' => some loopEnd
  | _ => none

def symbol : Token → Char
  | right => '>'
  | left => '<'
  | increment => '+'
  | decrement => '-'
  | output => '.'
  | input => ','
  | loopStart => '['
  | loopEnd => ']'

end Token

/-- The commands of a source. -/
def read (source : String) : Program Token where
  tokens := (source.toList.filterMap Token.ofChar?).toArray

open TapeState in
def execute : Token → Instruction Token TapeState Flow
  | .right => do
    modifyTape (·.move 1)
    return .proceed
  | .left => do
    modifyTape (·.move (-1))
    return .proceed
  | .increment => do
    modifyTape (·.add 1)
    return .proceed
  | .decrement => do
    modifyTape (·.add (-1))
    return .proceed
  | .output => do
    writeCell
    return .proceed
  | .input => return .ask .char
  | .loopStart => do
    pushLoop ((← get).program.counter - 1)
    return .proceed
  | .loopEnd => do
    match ← popLoop? with
    | some start =>
      if (← getCell) != 0 then
        Instruction.tryProgram (·.goTo start)
    | none => pure ()
    return .yield

/-- Stores the code of a character. -/
def receive (entry : Entry) (state : TapeState) : Except Fault TapeState :=
  match entry with
  | .char c => .ok { state with tape := state.tape.store c.toNat }
  | .text _ | .number _ => .error .unexpectedInput

/-- Only characters and the enter key can be read. -/
def keyChar? : Key → Option Char
  | .char c => some c
  | .enter => some '\n'
  | .tab | .backspace | .escape => none

def language : Language Token TapeState where
  read source := .ok (read source)
  describe token := token.symbol.toString
  initial _ := {}
  execute := execute
  receive := receive
  keyChar? := keyChar?

end Brainfuck

end Esoterica
