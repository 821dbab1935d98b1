/-!
# Faults

The ways in which an instruction, the answer to a request or the end of a program can go wrong while
a program runs.
-/

namespace Esoterica

/-- The two kinds of values of the stack language. -/
inductive ValueKind where
  | number
  | text
deriving DecidableEq

namespace ValueKind

def word : ValueKind → String
  | number => "number"
  | text => "text"

end ValueKind

inductive Fault where
  | emptyStack
  | fullStack
  | unknownMarker (name : String)
  | unknownOperator (symbol : Char)
  | jumpOutOfRange (target : Int)
  | textTooLong (symbol : Char) (left right : ValueKind) (requested : Nat)
  | missingLoopStart
  | missingParameter
  | invalidParameter (token : String)
  | missingResult
  | unexpectedInput
deriving DecidableEq

namespace Fault

def message : Fault → String
  | emptyStack => "There is no value to pop from stack"
  | fullStack => "Adding to a full stack"
  | unknownMarker name => "No marker for \"" ++ name ++ "\" detected"
  | unknownOperator symbol => "Unknown operator `" ++ symbol.toString ++ "`"
  | jumpOutOfRange target => "Jump target " ++ toString target ++ " is outside of the program"
  | textTooLong symbol left right requested =>
    "Result of " ++ left.word ++ " " ++ symbol.toString ++ " " ++ right.word ++
      " would be too long (" ++ toString requested ++ " characters)"
  | missingLoopStart => "No start of loop"
  | missingParameter => "No move left to use as a parameter"
  | invalidParameter token => "Expected a move as a parameter, found `" ++ token ++ "`"
  | missingResult => "The game does not have a result"
  | unexpectedInput => "Input of this kind cannot be used here"

end Fault

end Esoterica
