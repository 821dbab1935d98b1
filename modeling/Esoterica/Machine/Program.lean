import Esoterica.Machine.Fault

/-!
# Programs

A program is a list of tokens with named positions, its markers, and a counter that points at the
token to be executed next, or just past the last one. Jump targets are 64-bit signed integers: an
absolute target that does not fit wraps around in the report of a failed jump, a relative one that
is too large is reported as the greatest such integer.
-/

namespace Esoterica

/-- The greatest jump target, the greatest signed integer of 64 bits. -/
def greatestTarget : Int :=
  0x7FFFFFFFFFFFFFFF

/-- Names for positions of a program. Each name has at most one position. -/
structure Markers where
  entries : List (String × Nat) := []

namespace Markers

def find? (markers : Markers) (name : String) : Option Nat :=
  markers.entries.lookup name

/-- Gives a name a position, in place of the one it had. -/
def insert (markers : Markers) (name : String) (index : Nat) : Markers where
  entries := markers.entries.filter (·.1 != name) ++ [(name, index)]

def ofList (pairs : List (String × Nat)) : Markers :=
  pairs.foldl (fun markers (name, index) => markers.insert name index) {}

end Markers

structure Program (Token : Type) where
  tokens : Array Token
  markers : Markers := {}
  /-- The index of the next token. -/
  counter : Nat := 0

namespace Program

variable {Token : Type}

def atEnd (program : Program Token) : Bool :=
  program.tokens.size ≤ program.counter

/-- The next token. -/
def current? (program : Program Token) : Option Token :=
  program.tokens[program.counter]?

/-- Takes the next token; at the end there is none and nothing changes. -/
def next (program : Program Token) : Option Token × Program Token :=
  match program.current? with
  | some token => (some token, { program with counter := program.counter + 1 })
  | none => (none, program)

def rewind (program : Program Token) : Program Token :=
  { program with counter := 0 }

/-- The token just before the counter. -/
def previous? (program : Program Token) : Option Token :=
  match program.counter with
  | 0 => none
  | index + 1 => program.tokens[index]?

/-- Continues at an index; the position past the last token is allowed. -/
def goTo (program : Program Token) (index : Nat) : Except Fault (Program Token) :=
  if index ≤ program.tokens.size then
    .ok { program with counter := index }
  else
    .error (.jumpOutOfRange (Int.bmod index UInt64.size))

/-- Continues a number of tokens further on, or back if it is negative. -/
def skip (program : Program Token) (offset : Int) : Except Fault (Program Token) :=
  let target := program.counter + offset
  if greatestTarget < target then .error (.jumpOutOfRange greatestTarget)
  else if target < 0 then .error (.jumpOutOfRange target)
  else program.goTo target.toNat

end Program

end Esoterica
