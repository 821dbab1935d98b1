import Esoterica.Machine.Basic

/-!
# Arguments

The command line names one file and may set options. An option that takes a value takes it from the
same argument, as in `--seed=5` and `-m5`, or from the next one, which then must not begin with a
minus. One-letter options without a value can be joined with others. Behind `--` there is no option
any more. No option may be given twice.
-/

namespace Esoterica

/-- The languages that can be run or read. -/
inductive LanguageName where
  | brainfuck
  | shortO
  | chess
  | weird
deriving DecidableEq

namespace LanguageName

def ofWord? : String → Option LanguageName
  | "brainfuck" => some brainfuck
  | "short-o" => some shortO
  | "chess" => some chess
  | "weird" => some weird
  | _ => none

def ofExtension? : String → Option LanguageName
  | "bf" => some brainfuck
  | "sho" => some shortO
  | "chess" => some chess
  | "weird" => some weird
  | _ => none

end LanguageName

/-- The parts of a path between slashes that are not empty and not `.`. -/
def pathParts (path : String) : List (List Char) :=
  let parts := path.toList.foldr
    (fun c parts =>
      match c, parts with
      | '/', _ => [] :: parts
      | _, part :: parts => (c :: part) :: parts
      | _, [] => [[c]])
    [[]]
  parts.filter fun part => !part.isEmpty && part != ['.']

/-- What stands behind the last point of a name, if something stands before it. -/
def extensionOfName? (name : List Char) : Option (List Char) :=
  if name = ['.', '.'] then none
  else
    let reversed := name.reverse
    let extension := (reversed.takeWhile (· != '.')).reverse
    match reversed.dropWhile (· != '.') with
    | _ :: _ :: _ => some extension
    | _ => none

/-- The language that the extension of a file stands for. -/
def LanguageName.ofPath? (path : String) : Option LanguageName := do
  let name ← (pathParts path).getLast?
  let extension ← extensionOfName? name
  ofExtension? (String.ofList extension)

/-- A natural number below a bound, in base ten and with at most a plus in front. -/
def readUnsigned? (bound : Nat) (text : List Char) : Option Nat :=
  let digits :=
    match text with
    | '+' :: rest => rest
    | _ => text
  if digits.isEmpty || !digits.all Char.isDigit then none
  else
    let value := Nat.ofDigitChars 10 digits 0
    if value < bound then some value else none

/-- Like `readUnsigned?`, but a minus is allowed in front of zero. -/
def readBudget? (text : List Char) : Option Nat :=
  match text with
  | '-' :: digits => if digits.head? = some '+' then none else readUnsigned? 1 digits
  | _ => readUnsigned? UInt32.size text

inductive Flag where
  | language
  | stats
  | timeSlice
  | stepBudget
  | maxStackSize
  | seed
deriving DecidableEq

namespace Flag

def ofLong? : List Char → Option Flag := fun name =>
  match String.ofList name with
  | "lang" => some language
  | "stats" => some stats
  | "time-slice-ms" => some timeSlice
  | "step-budget" => some stepBudget
  | "max-stack-size" => some maxStackSize
  | "seed" => some seed
  | _ => none

def ofShort? : Char → Option Flag
  | 'l' => some language
  | 's' => some stats
  | 'm' => some maxStackSize
  | _ => none

end Flag

/-- What a command line asks for. -/
structure Arguments where
  file : Option String := none
  language : Option LanguageName := none
  stats : Bool := false
  timeSlice : Option Nat := none
  stepBudget : Option Nat := none
  maxStackSize : Option Nat := none
  seed : Option Nat := none

namespace Arguments

/-- Takes a file; there must not be one yet, and its path is not empty. -/
def setFile (arguments : Arguments) (path : List Char) : Option Arguments :=
  if arguments.file.isSome || path.isEmpty then none
  else some { arguments with file := some (String.ofList path) }

/-- Takes an option without a value. -/
def setPlain (arguments : Arguments) (flag : Flag) : Option Arguments :=
  if flag = .stats && !arguments.stats then some { arguments with stats := true } else none

/-- Takes an option with its value, which must be a right one; the option must not be set yet. -/
def setValue (arguments : Arguments) (flag : Flag) (value : List Char) : Option Arguments :=
  match flag with
  | .language =>
    match arguments.language, LanguageName.ofWord? (String.ofList value) with
    | none, some language => some { arguments with language }
    | _, _ => none
  | .timeSlice =>
    match arguments.timeSlice, readUnsigned? UInt64.size value with
    | none, some timeSlice => some { arguments with timeSlice }
    | _, _ => none
  | .stepBudget =>
    match arguments.stepBudget, readBudget? value with
    | none, some stepBudget => some { arguments with stepBudget }
    | _, _ => none
  | .maxStackSize =>
    match arguments.maxStackSize, readUnsigned? UInt64.size value with
    | none, some maxStackSize => some { arguments with maxStackSize }
    | _, _ => none
  | .seed =>
    match arguments.seed, readUnsigned? UInt64.size value with
    | none, some seed => some { arguments with seed }
    | _, _ => none
  | .stats => none

/-- The arguments so far, and the option that still waits for a value. -/
structure Progress where
  arguments : Arguments := {}
  waiting : Option Flag := none

/-- Takes an argument that begins with two minuses. -/
def readLong (arguments : Arguments) (text : List Char) : Option Progress := do
  let name := text.takeWhile (· != '=')
  let flag ← Flag.ofLong? name
  match text.dropWhile (· != '=') with
  | _ :: value => return { arguments := ← arguments.setValue flag value }
  | [] =>
    if flag = .stats then return { arguments := ← arguments.setPlain flag }
    else return { arguments, waiting := some flag }

/-- Takes the letters behind a single minus. -/
def readShort (arguments : Arguments) : List Char → Option Progress
  | [] => some { arguments }
  | letter :: rest => do
    let flag ← Flag.ofShort? letter
    if flag = .stats then
      readShort (← arguments.setPlain flag) rest
    else
      match rest with
      | [] => return { arguments, waiting := some flag }
      | '=' :: value => return { arguments := ← arguments.setValue flag value }
      | value => return { arguments := ← arguments.setValue flag value }

/-- Takes one argument in front of `--`. -/
def readOne (state : Progress) (text : List Char) : Option Progress :=
  match state.waiting, text with
  | none, '-' :: '-' :: name => readLong state.arguments name
  | none, '-' :: letter :: rest => readShort state.arguments (letter :: rest)
  | none, path => do return { arguments := ← state.arguments.setFile path }
  | some _, '-' :: _ => none
  | some flag, value => do return { arguments := ← state.arguments.setValue flag value }

def readAll (state : Progress) : List String → Option Arguments
  | [] => if state.waiting.isSome then none else some state.arguments
  | argument :: rest =>
    if argument = "--" then
      if state.waiting.isSome then none
      else rest.foldlM (fun arguments path => arguments.setFile path.toList) state.arguments
    else do
      readAll (← readOne state argument.toList) rest

end Arguments

/-- A command line that was understood. -/
structure Command where
  file : String
  /-- The language asked for, whatever the file is called. -/
  language : Option LanguageName
  stats : Bool
  timeSlice : Option Nat
  stepBudget : Option Nat
  maxStackSize : Option Nat
  seed : Option Nat

namespace Command

/-- Reads a command line; there must be a file in it. -/
def parse? (words : List String) : Option Command := do
  let arguments ← Arguments.readAll {} words
  let file ← arguments.file
  return { arguments with file }

/-- The options of the run, where those not given are the defaults. -/
def options (command : Command) (defaults : Options) : Options :=
  let options := { defaults with
    timeSlice := command.timeSlice.getD defaults.timeSlice
    maxStackSize := command.maxStackSize.getD defaults.maxStackSize
    seed := command.seed <|> defaults.seed }
  match command.stepBudget with
  | some budget => options.withStepBudget budget
  | none => options

/-- The language to use: the one asked for, or that of the file's extension. -/
def language? (command : Command) : Option LanguageName :=
  command.language <|> LanguageName.ofPath? command.file

end Command

end Esoterica
