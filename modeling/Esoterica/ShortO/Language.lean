import Esoterica.ShortO.Scan

/-!
# The stack language

Text is printed, values are pushed, operators act on the stack, and jumps go on at their markers.
-/

namespace Esoterica

namespace ShortO

/-- Goes on at a marker. -/
def jump (name : String) : StackAction Flow := do
  match (← get).program.markers.find? name with
  | some index =>
    Instruction.tryProgram (·.goTo index)
    return .yield
  | none => throw (.unknownMarker name)

def execute (registry : Registry) : Token → StackAction Flow
  | .text text => do
    Instruction.modifyConsole (·.write text)
    return .proceed
  | .value value => do
    StackAction.push value
    return .proceed
  | .operator symbol =>
    match registry.find? symbol with
    | some entry => entry.apply
    | none => throw (.unknownOperator symbol)
  | .jump name => jump name

/-- The value of an answer. -/
def valueOfEntry : Entry → Value
  | .char c => .text c.toString
  | .text line => .text line
  | .number number => .ofNumber number

/-- Pushes the answer. -/
def receive (entry : Entry) (stack : Stack) : Except Fault Stack :=
  if stack.isFull then .error .fullStack else .ok (stack.push (valueOfEntry entry))

def language (registry : Registry) : Language Token Stack where
  read := read registry
  describe := Token.describe
  initial options := { capacity := options.maxStackSize }
  execute := execute registry
  receive := receive

end ShortO

end Esoterica
