import Esoterica.Machine.Basic

/-!
# What an engine tells its host

The status of a run, what the host has to do next, the reason why a run failed, and the events by
which an observer can follow all that happens.
-/

namespace Esoterica

inductive Status where
  | idle
  | running
  | suspended (request : Request)
  | completed
  | failed
  | cancelled
deriving DecidableEq

/-- What the host has to do next. -/
inductive Next where
  /-- Call for another slice. -/
  | slice
  /-- Press keys. -/
  | key (request : Request)
  /-- Nothing: the run ended, or none was started. -/
  | done (status : Status)
deriving DecidableEq

namespace Status

/-- Whether there is a run that can go on. -/
def isActive : Status → Bool
  | running | suspended _ => true
  | idle | completed | failed | cancelled => false

def describe : Status → String
  | idle => "idle"
  | running => "running"
  | suspended _ => "waiting for input"
  | completed => "completed"
  | failed => "failed"
  | cancelled => "cancelled"

def next : Status → Next
  | running => .slice
  | suspended request => .key request
  | status => .done status

end Status

/-- Why a run failed. -/
inductive Failure where
  | source (error : SyntaxError)
  /-- The instruction's text, its position counted from one, and what went wrong there. -/
  | instruction (text : String) (position : Nat) (fault : Fault)
deriving DecidableEq

namespace Failure

def message : Failure → String
  | source error => error.message
  | instruction text position fault =>
    fault.message ++ " at Instruction " ++ toString position ++ " (Runtime)\n[" ++ text ++ "]"

end Failure

inductive Event where
  | console (change : Change)
  | failed (message : String)
  | status (status : Status)
deriving DecidableEq

/--
An observer is told every event, and may ask for the cancellation of the run at any of them. What it
does may depend on what it remembers of the events it was told before.
-/
structure Observer where
  /-- What is remembered after another event, given what was remembered before. -/
  remembers : List Event → Event → List Event := fun memory _ => memory
  /-- Whether a cancellation is asked for at an event, given what is remembered. -/
  cancelsAt : List Event → Event → Bool := fun _ _ => false

/--
The time that has passed since a slice began, in milliseconds, when so many instructions of the run
are executed.
-/
abbrev Clock : Type :=
  Nat → Nat

namespace Clock

/-- Instructions take no time worth measuring. -/
def stopped : Clock :=
  fun _ => 0

end Clock

end Esoterica
