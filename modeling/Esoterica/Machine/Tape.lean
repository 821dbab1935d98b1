/-!
# Tapes

A tape is a ring of bytes with one pointer. Amounts and values are integers of any size and sign:
the pointer wraps around at both ends of the tape, and a cell is taken modulo 256.
-/

namespace Esoterica

structure Tape where
  cells : Array UInt8
  pointer : Nat
  pointer_lt : pointer < cells.size

namespace Tape

/-- The number of cells of the tape that a run starts with. -/
def standardLength : Nat :=
  30000

/-- A tape of zeros with the pointer at its first cell. -/
def blank (length : Nat) (positive : 0 < length) : Tape where
  cells := Array.replicate length 0
  pointer := 0
  pointer_lt := by simpa using positive

/-- A tape of zeros, if it has at least one cell. -/
def blank? (length : Nat) : Option Tape :=
  if positive : 0 < length then some (blank length positive) else none

/-- The tape that a run starts with. -/
def standard : Tape :=
  blank standardLength (by decide)

def length (tape : Tape) : Nat :=
  tape.cells.size

/-- The cell under the pointer. -/
def cell (tape : Tape) : UInt8 :=
  have := tape.pointer_lt
  tape.cells[tape.pointer]

/-- Where a move ends before the end of the tape is joined to its start. -/
def landing (tape : Tape) (amount : Int) : Int :=
  tape.pointer + amount % tape.length

/-- Moves the pointer; a negative amount moves it back. -/
def move (tape : Tape) (amount : Int) : Tape where
  cells := tape.cells
  pointer := (tape.landing amount % tape.length).toNat
  pointer_lt := by
    have := tape.pointer_lt
    have positive : (0 : Int) < tape.length := by
      unfold length
      omega
    have := Int.emod_nonneg (tape.landing amount) (Int.ne_of_gt positive)
    have := Int.emod_lt_of_pos (tape.landing amount) positive
    unfold length at *
    omega

/-- A value as a cell holds it. -/
def cellOf (value : Int) : UInt8 :=
  UInt8.ofNat (value % 256).toNat

/-- Stores a value in the cell under the pointer. -/
def store (tape : Tape) (value : Int) : Tape where
  cells := tape.cells.set tape.pointer (cellOf value) tape.pointer_lt
  pointer := tape.pointer
  pointer_lt := by simpa using tape.pointer_lt

/-- Adds an amount to the cell under the pointer. -/
def add (tape : Tape) (amount : Int) : Tape :=
  tape.store (tape.cell.toNat + amount % 256)

end Tape

end Esoterica
