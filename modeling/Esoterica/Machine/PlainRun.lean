import Esoterica.Machine.Basic

/-!
# Plain runs

A plain run executes a program token by token, without slices, keys or cancellation. Answers to its
requests come from a list. It is the measure for any other way of running the same program.
-/

namespace Esoterica

/-- What is given in answer to a request, and the typed line that shows it in the output. -/
structure Answer where
  entry : Entry
  line : String := ""

/-- What one token did. -/
structure PlainStep (Token State : Type) where
  token : Token
  flow : Except Fault Flow
  /-- Whether the answer to a request was taken, if there was an answer. -/
  received : Option (Except Fault Unit) := none
  /-- The machine after the token and the answer. -/
  machine : Machine Token State

/-- Why a plain run stopped. -/
inductive PlainEnd where
  | failed
  | halted
  /-- No answer was left for a request. -/
  | starved
  /-- As many tokens were executed as were allowed. -/
  | limited
  /-- There was no token left. -/
  | finished (result : Except Fault Unit)

namespace Language

variable {Token State : Type}

/-- Executes a token and gives the machine after it also when it fails. -/
def perform (language : Language Token State) (token : Token) (machine : Machine Token State) :
    Except Fault Flow × Machine Token State :=
  match language.execute token machine with
  | .ok flow machine => (.ok flow, machine)
  | .error fault machine => (.error fault, machine)

/-- Gives an answer to the machine, whose state stays if the answer is refused. -/
def answer (language : Language Token State) (answer : Answer) (machine : Machine Token State) :
    Except Fault Unit × Machine Token State :=
  let console := if language.keepsLines then machine.console.write answer.line else machine.console
  match language.receive answer.entry machine.state with
  | .ok state => (.ok (), { machine with state, console })
  | .error fault => (.error fault, { machine with console })

/-- Executes at most `limit` tokens, answering requests from the list in turn. -/
def plainRun (language : Language Token State) :
    (limit : Nat) → List Answer → Machine Token State → List (PlainStep Token State) × PlainEnd
  | 0, _, _ => ([], .limited)
  | limit + 1, answers, machine =>
    match machine.program.next with
    | (none, _) => ([], .finished (language.finish machine.state))
    | (some token, program) =>
      let (flow, machine) := language.perform token { machine with program }
      let step : PlainStep Token State := { token, flow, machine }
      match flow with
      | .error _ => ([step], .failed)
      | .ok .halt => ([step], .halted)
      | .ok (.ask _) =>
        match answers with
        | [] => ([step], .starved)
        | answer :: answers =>
          let (received, machine) := language.answer answer machine
          let step := { step with received := some received, machine }
          let (steps, ending) := plainRun language limit answers machine
          (step :: steps, ending)
      | .ok .proceed | .ok .yield =>
        let (steps, ending) := plainRun language limit answers machine
        (step :: steps, ending)

end Language

end Esoterica
