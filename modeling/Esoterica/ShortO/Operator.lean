import Esoterica.Machine.Basic
import Esoterica.ShortO.Token

/-!
# Operators

The operators of the stack language and what they do. An operator with two operands takes the right
one first. What it has taken or pushed before it fails stays so.
-/

namespace Esoterica

namespace ShortO

/-- The stack, top last, and how many values it may hold. -/
structure Stack where
  values : Array Value := #[]
  capacity : Nat
deriving DecidableEq

namespace Stack

def isFull (stack : Stack) : Bool :=
  stack.capacity ≤ stack.values.size

/-- The topmost value. -/
@[noinline]
def top? (stack : Stack) : Option Value :=
  stack.values.back?

def push (stack : Stack) (value : Value) : Stack :=
  { stack with values := stack.values.push value }

def pop (stack : Stack) : Stack :=
  { stack with values := stack.values.pop }

end Stack

inductive Operator where
  | add
  | subtract
  | multiply
  | divide
  | remainder
  | toNumber
  | toCharacter
  | print
  | not
  | drop
  | copy
  | toText
  | characterCodes
  | skipIf
  | readCharacter
  | compare
  | reverse
  | readText
  | readNumber
  | deleteOutput
  | isText
  | clearOutput
  | length
  | or
  | and
  | random
  | floor
  | stackLength
deriving DecidableEq

namespace Operator

def name : Operator → String
  | add => "add"
  | subtract => "subtract"
  | multiply => "multiply"
  | divide => "divide"
  | remainder => "remainder"
  | toNumber => "to number"
  | toCharacter => "to character"
  | print => "print"
  | not => "not"
  | drop => "drop"
  | copy => "repeat"
  | toText => "to text"
  | characterCodes => "character codes"
  | skipIf => "skip if"
  | readCharacter => "read character"
  | compare => "compare"
  | reverse => "reverse"
  | readText => "read text"
  | readNumber => "read number"
  | deleteOutput => "delete output"
  | isText => "is text"
  | clearOutput => "clear output"
  | length => "length"
  | or => "or"
  | and => "and"
  | random => "random"
  | floor => "floor"
  | stackLength => "stack length"

end Operator

/-- An action on the machine of the stack language. -/
abbrev StackAction : Type → Type :=
  Instruction Token Stack

namespace StackAction

def pop : StackAction Value := do
  match (← Instruction.getState).top? with
  | some value =>
    Instruction.modifyState Stack.pop
    return value
  | none => throw .emptyStack

def push (value : Value) : StackAction Unit := do
  if (← Instruction.getState).isFull then
    throw .fullStack
  else
    Instruction.modifyState (·.push value)

/-- Takes the right operand, then the left one. -/
def popPair : StackAction (Value × Value) := do
  let right ← pop
  let left ← pop
  return (left, right)

def pushTimes (value : Value) : (count : Nat) → StackAction Unit
  | 0 => return ()
  | count + 1 => do
    push value
    pushTimes value count

def pushAll : List Value → StackAction Unit
  | [] => return ()
  | value :: rest => do
    push value
    pushAll rest

/-- Takes a number of values; the one taken last comes first, before those of `taken`. -/
def popTimes (taken : List Value) : (count : Nat) → StackAction (List Value)
  | 0 => return taken
  | count + 1 => do
    popTimes ((← pop) :: taken) count

/-- Fails if a text of this length may not be built. -/
def checkLength (symbol : Char) (left right : Value) (requested : Nat) : StackAction Unit :=
  if maxTextLength < requested then
    throw (.textTooLong symbol left.kind right.kind requested)
  else
    return ()

/-- Numbers are added; otherwise the printed forms are joined. -/
def add : StackAction Unit := do
  match ← popPair with
  | (.number left, .number right) => push (.ofNumber (left + right))
  | (left, right) =>
    let joined := left.toText ++ right.toText
    checkLength '+' left right joined.length
    push (.text joined)

/-- The length of a text of `length` characters written `count` times, brought into 64 bits. -/
def requestedLength (length : Nat) (count : Binary64) : Nat :=
  let product := Binary64.ofNat length * count
  if product.isNaN then UInt64.size - 1 else product.toUnsigned

/-- Writes a text as often as the whole part of a number says, whatever its sign. -/
def multiplyText (left right : Value) (text : String) (number : Binary64) : StackAction Unit := do
  let count := number.abs.trunc
  checkLength '*' left right (requestedLength text.length count)
  push (.text (repeatText text count.toUnsigned))

def multiply : StackAction Unit := do
  match ← popPair with
  | (.number left, .number right) => push (.ofNumber (left * right))
  | (.text _, .text _) => push .notANumber
  | (.number number, .text text) => multiplyText (.number number) (.text text) text number
  | (.text text, .number number) => multiplyText (.text text) (.number number) text number

/-- Applies an operation on numbers; with a text there is no result. -/
def arithmetic (f : Binary64 → Binary64 → Binary64) : StackAction Unit := do
  match ← popPair with
  | (.number left, .number right) => push (.ofNumber (f left right))
  | _ => push .notANumber

/-- Replaces the top of the stack. -/
def mapTop (f : Value → Value) : StackAction Unit := do
  push (f (← pop))

/-- Replaces a text on top by the codes of its characters, the last one on top; a number stays. -/
def characterCodes : StackAction Unit := do
  match ← pop with
  | .text text => pushAll (text.toList.map fun c => .number (.ofNat c.toNat))
  | .number number => push (.number number)

/-- Skips as many tokens as the top says, if the value below it is true. -/
def skipIf : StackAction Unit := do
  let amount := (← pop).count
  let condition ← pop
  if condition.isTrue then
    Instruction.tryProgram (·.skip amount.toSigned)

/-- Keeps the output but for as many characters at its end as a number says. -/
def deleteOutput (amount : Binary64) (console : Console) : Console :=
  console.keepFirst (cutPoint (Binary64.ofNat console.length - amount) console.length)

end StackAction

open StackAction in
/-- What an operator does to the machine. -/
def Operator.apply : Operator → StackAction Flow
  | add => do
    StackAction.add
    return .proceed
  | subtract => do
    let (left, right) ← popPair
    push (left.difference right)
    return .proceed
  | multiply => do
    StackAction.multiply
    return .proceed
  | divide => do
    arithmetic (· / ·)
    return .proceed
  | remainder => do
    arithmetic (· % ·)
    return .proceed
  | toNumber => do
    mapTop Value.toNumber
    return .proceed
  | toCharacter => do
    mapTop Value.toCharacter
    return .proceed
  | print => do
    let value ← pop
    Instruction.modifyConsole (·.write value.toText)
    return .proceed
  | not => do
    mapTop fun value => .ofBool !value.isTrue
    return .proceed
  | drop => do
    let _ ← pop
    return .proceed
  | copy => do
    let count := (← pop).count
    let value ← pop
    pushTimes value (rounds count)
    return .proceed
  | toText => do
    mapTop fun value => .text value.toText
    return .proceed
  | characterCodes => do
    StackAction.characterCodes
    return .proceed
  | skipIf => do
    StackAction.skipIf
    return .proceed
  | readCharacter => return .ask .char
  | compare => do
    let (left, right) ← popPair
    push (.ofOrdering (left.compare right))
    return .proceed
  | reverse => do
    let count := rounds (← pop).count
    let taken ← popTimes [] count
    pushAll taken.reverse
    return .proceed
  | readText => return .ask (.line .text)
  | readNumber => return .ask (.line .decimal)
  | deleteOutput => do
    let amount := (← pop).count
    Instruction.modifyConsole (StackAction.deleteOutput amount)
    return .proceed
  | isText => do
    mapTop fun value => .ofBool (value.kind = .text)
    return .proceed
  | clearOutput => do
    Instruction.modifyConsole Console.clear
    return .proceed
  | length => do
    mapTop fun value => .number (.ofNat value.length)
    return .proceed
  | or => do
    if (← pop).isTrue then push (.ofBool true)
    else push (.ofBool (← pop).isTrue)
    return .proceed
  | and => do
    if (← pop).isTrue then push (.ofBool (← pop).isTrue)
    else push (.ofBool false)
    return .proceed
  | random => do
    let fraction ← Instruction.draw RandomStream.nextFraction
    push (.number fraction)
    return .proceed
  | floor => do
    mapTop Value.floor
    return .proceed
  | stackLength => do
    let size := (← Instruction.getState).values.size
    push (.number (.ofNat size))
    return .proceed

end ShortO

end Esoterica
