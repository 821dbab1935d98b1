import Esoterica.Chess.Game
import Esoterica.Machine.TapeState

/-!
# Playing a game

Moves are instructions on a tape of bytes. What a move does depends on its piece and on the
difference of its square, file less rank. A flagged move, a check or a capture, mostly takes the
move that follows as a number instead of executing it.

| piece  | difference below 0       | difference 0              | difference above 0     |
|--------|--------------------------|---------------------------|------------------------|
| king   | skips forward if cell 0  |                           | jumps back if cell 0   |
| rook   | pointer to the right     |                           | pointer to the left    |
| bishop | writes the cell          | reads back from the output | asks for input        |
| knight | adds                     |                           | subtracts              |

The queen stores a value that the distance from difference 0 chooses; pawns do nothing. The short
castling starts a loop and the long one goes back to its start. A game that runs past its last token
has failed.
-/

namespace Esoterica

namespace Chess

open TapeState

/-- Takes the next token as a number. It is used up also when it is no move. -/
def takeParameter : Instruction Token TapeState Nat := do
  let (token?, program) := (← get).program.next
  modify fun machine => { machine with program }
  match token? with
  | some (.move move) => return move.parameter
  | some token => throw (.invalidParameter token.text)
  | none => throw .missingParameter

/-- The number that a move works with: the parameter of a flagged move, otherwise one. -/
def takeAmount (move : Move) : Instruction Token TapeState Nat :=
  if move.isFlagged then takeParameter else return 1

/-- Jumps if the cell is zero. A jump back also passes over the parameter, if there was one. -/
def playKing (move : Move) : Instruction Token TapeState Flow := do
  let amount ← takeAmount move
  let difference := move.square.difference
  if (← getCell) != 0 || difference == 0 then
    return .proceed
  else
    let offset : Int :=
      if difference > 0 then -((amount + move.isFlagged.toNat : Nat) : Int) else amount
    Instruction.tryProgram (·.skip offset)
    return .yield

/-- The value that a queen stores, if any. -/
def queenValue? (move : Move) : Instruction Token TapeState (Option Nat) := do
  match move.square.difference.natAbs with
  | 0 => return some (← Instruction.draw RandomStream.nextByte).toNat
  | 1 =>
    let machine ← get
    return some (if move.isFlagged then machine.state.tape.pointer else machine.console.length)
  | 2 => return some (if (← getCell) == 0 then 1 else 0)
  | 3 => if move.isFlagged then return some (← takeParameter) else return some 0
  | _ => return none

def playQueen (move : Move) : Instruction Token TapeState Flow := do
  match ← queenValue? move with
  | some value => modifyTape (·.store value)
  | none => pure ()
  return .proceed

/--
Moves characters from the end of the output back onto the tape: the cell gets the code of the first
of them, or zero if there are not so many. For zero characters it is the first of the whole output,
which is then cleared.
-/
def takeBack (amount : Nat) : Instruction Token TapeState Unit := do
  let console := (← get).console
  let c? :=
    if amount = 0 then console.charAt? 0
    else if amount ≤ console.length then console.charAt? (console.length - amount)
    else none
  modifyTape (·.store ((c?.map Char.toNat).getD 0))
  Instruction.modifyConsole fun console =>
    if amount = 0 then console.clear else console.eraseLast amount

def playBishop (move : Move) : Instruction Token TapeState Flow := do
  let difference := move.square.difference
  if difference > 0 then
    return .ask (if move.isFlagged then .line .digits else .char)
  else if difference < 0 then
    if move.isFlagged then
      let cell ← getCell
      Instruction.modifyConsole (·.write (toString cell.toNat))
    else
      writeCell
    return .proceed
  else
    takeBack (← takeAmount move)
    return .proceed

def play (move : Move) : Instruction Token TapeState Flow := do
  let direction := -move.square.difference.sign
  match move.piece with
  | .pawn => return .proceed
  | .king => playKing move
  | .queen => playQueen move
  | .rook =>
    let amount ← takeAmount move
    modifyTape (·.move (direction * amount))
    return .proceed
  | .knight =>
    let amount ← takeAmount move
    modifyTape (·.add (direction * amount))
    return .proceed
  | .bishop => playBishop move

def execute : Token → Instruction Token TapeState Flow
  | .result _ => return .halt
  | .castling .short => do
    pushLoop (← get).program.counter
    return .proceed
  | .castling .long => do
    match ← popLoop? with
    | some start =>
      Instruction.tryProgram (·.goTo start)
      pushLoop start
      return .yield
    | none => throw .missingLoopStart
  | .move move => play move

/-- Stores the code of a character, or the whole part of a number. -/
def receive (entry : Entry) (state : TapeState) : Except Fault TapeState :=
  match entry with
  | .char c => .ok { state with tape := state.tape.store c.toNat }
  | .number number => .ok { state with tape := state.tape.store number.toInt }
  | .text _ => .error .unexpectedInput

def language : Language Token TapeState where
  read := read
  describe := Token.text
  initial _ := {}
  execute := execute
  receive := receive
  finish _ := .error .missingResult
  keepsLines := false

end Chess

end Esoterica
