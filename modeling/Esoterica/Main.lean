import Esoterica.CommandLine.Outcome

/-!
# The command

The outermost layer: it reads the file and the keys, and writes what is to be written as soon as it
is known. All decisions are made elsewhere.
-/

namespace Esoterica

namespace Host

/-- Whether a code is the system's number for an error, which some calls give with a minus. -/
def isCode (number code : UInt32) : Bool :=
  code == number || code == -number

/-- The content of a file, or why it could not be read. -/
def readFile (path : String) : IO (Except FileFault String) := do
  try
    match String.fromUTF8? (← IO.FS.readBinFile path) with
    | some text => return .ok text
    | none => return .error .invalidText
  catch error =>
    match error with
    | .noFileOrDirectory .. => return .error .missing
    | .inappropriateType _ code _ =>
      return .error (if isCode 21 code then .isFolder else .notFolder)
    | .invalidArgument _ code _ =>
      return .error (if isCode 36 code then .nameTooLong else .other (toString error))
    | _ => return .error (.other (toString error))

/-- The bytes up to and including the next line break, none at the end of the input. -/
partial def readLine (input : IO.FS.Stream) (line : Array UInt8) : IO (List UInt8) := do
  match (← input.read 1).toList with
  | [] => return line.toList
  | byte :: _ =>
    if byte == 10 then return (line.push byte).toList else readLine input (line.push byte)

/-- Gives a keyboard that has no key left the next line of the input, until it has one. -/
partial def refill (input : IO.FS.Stream) (keyboard : Keyboard) : IO Keyboard := do
  match keyboard.take with
  | (.ok none, keyboard) =>
    let line ← readLine input #[]
    if line.isEmpty then return keyboard else refill input { unread := line }
  | _ => return keyboard

variable {Token State : Type}

/-- Writes what the screen shows, once. -/
def print (output : IO.FS.Stream) (screen : Screen) : IO Screen := do
  unless screen.printed.isEmpty do
    output.putStr screen.printed
    output.flush
  return { screen with printed := "" }

/-- Goes on until the session ends. -/
partial def converse (input output : IO.FS.Stream) (turn : Turn Token State) :
    IO (Session Token State) := do
  let turn := turn.display
  let screen ← print output turn.screen
  let keyboard ←
    match turn.next with
    | .key _ => refill input turn.keyboard
    | .slice | .done _ => pure turn.keyboard
  match { turn with screen, keyboard }.take with
  | .inl turn => converse input output turn
  | .inr session => return session

/-- Scrambles the bits of a word. -/
def mix (word : UInt64) : UInt64 :=
  let first := (word ^^^ (word >>> 30)) * 0xBF58476D1CE4E5B9
  let second := (first ^^^ (first >>> 27)) * 0x94D049BB133111EB
  second ^^^ (second >>> 31)

/-- The stream of a seed: the scrambled multiples of an odd constant, counted from the seed. -/
def generator (seed : Nat) : RandomStream where
  word index := mix (UInt64.ofNat seed + UInt64.ofNat (index + 1) * 0x9E3779B97F4A7C15)

/-- A random stream that differs from one start of the command to the next. -/
def freshRandom : IO RandomStream := do
  let bytes ← IO.getRandomBytes 8
  return generator (bytes.toList.foldl (fun seed byte => 256 * seed + byte.toNat) 0)

def perform (job : Job) : IO Outcome := do
  let random ← freshRandom
  let job := { job with options := { job.options with generator } }
  job.dealWith fun language => do
    let turn := job.firstTurn language random { unread := [] }
    let session ← converse (← IO.getStdin) (← IO.getStdout) turn
    return session.ending job.stats

def main (words : List String) : IO UInt32 := do
  let outcome ← executeWords (fun name => IO.getEnv name) readFile perform words
  if outcome.code = Outcome.misused.code then
    IO.eprintln "Usage: [OPTIONS] <FILE>"
  let output ← IO.getStdout
  output.putStr outcome.output
  output.flush
  IO.eprint outcome.errors
  return outcome.code

end Host

end Esoterica

def main (words : List String) : IO UInt32 :=
  Esoterica.Host.main words
