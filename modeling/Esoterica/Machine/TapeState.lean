import Esoterica.Machine.Basic
import Esoterica.Machine.Tape

/-!
# Tape machines

The state of the languages that work on a tape: the tape itself and the places where loops started,
innermost last. Characters are written to the console by their code.
-/

namespace Esoterica

structure TapeState where
  tape : Tape := .standard
  loops : Array Nat := #[]

namespace TapeState

/-- Where the innermost loop started. -/
@[noinline]
def innermost? (state : TapeState) : Option Nat :=
  state.loops.back?

variable {Token : Type}

/-- The cell under the pointer. -/
def getCell : Instruction Token TapeState UInt8 := do
  return (← Instruction.getState).tape.cell

def modifyTape (f : Tape → Tape) : Instruction Token TapeState Unit :=
  Instruction.modifyState fun state => { state with tape := f state.tape }

/-- Writes the character whose code is in the cell under the pointer. -/
def writeCell : Instruction Token TapeState Unit := do
  let cell ← getCell
  Instruction.modifyConsole (·.writeChar (Char.ofNat cell.toNat))

def pushLoop (start : Nat) : Instruction Token TapeState Unit :=
  Instruction.modifyState fun state => { state with loops := state.loops.push start }

/-- Takes the innermost loop start, if there is one. -/
def popLoop? : Instruction Token TapeState (Option Nat) := do
  let start? := (← Instruction.getState).innermost?
  Instruction.modifyState fun state => { state with loops := state.loops.pop }
  return start?

end TapeState

end Esoterica
