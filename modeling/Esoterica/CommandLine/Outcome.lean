import Esoterica.Brainfuck.Basic
import Esoterica.Chess.Play
import Esoterica.CommandLine.Folder
import Esoterica.CommandLine.Settings
import Esoterica.Script.Resolve
import Esoterica.ShortO.Language
import Esoterica.Terminal.Session

/-!
# Executing a command

What a command prints and the code it exits with: zero if all went well, one if the file could not
be used or the program did not complete, two if the command line was not understood. Scripts are not
run; their tokens are listed.
-/

namespace Esoterica

/-- What a command leaves behind. -/
structure Outcome where
  code : UInt32
  output : String := ""
  /-- What was written beside the output. -/
  errors : String := ""

namespace Outcome

/-- The command line was not understood. -/
def misused : Outcome where
  code := 2

/-- The text that reports why a command failed. -/
def complaint (reason : String) : String :=
  "Error: " ++ reason ++ "\n"

def failed (reason : String) : Outcome where
  code := 1
  errors := complaint reason

end Outcome

/-- Why a file could not be used. -/
def unreadableFile (file : String) (fault : FileFault) : String :=
  "Failed to read " ++ file ++ "\n\nCaused by:\n    " ++ fault.message

def unknownLanguage (file : String) : String :=
  "Cannot tell the language of " ++ file ++ ", use --lang"

namespace Statistics

def report (statistics : Statistics) : String :=
  "Instructions executed: " ++ toString statistics.instructions ++ "\nScheduling slices: " ++
    toString statistics.slices ++ "\n"

end Statistics

namespace Session

variable {Token State : Type}

/-- What is written behind the printed text: a line break, if the last line is open. -/
def lastBreak (session : Session Token State) : String :=
  let output := session.engine.output.toList
  if output.isEmpty || output.getLast? == some '\n' then "" else "\n"

/-- Why the program did not complete. -/
def complaint? (session : Session Token State) : Option String :=
  match session.engine.phase with
  | .failed failure => some failure.message
  | .cancelled => some "Program cancelled"
  | _ => none

/-- What is left to be written when the printed text is out, and the exit code. -/
def ending (session : Session Token State) (stats : Bool) : Outcome :=
  match session.unreadable with
  | some unreadable => .failed unreadable.message
  | none =>
    let report := if stats then session.engine.statistics.report else ""
    match session.complaint? with
    | some reason =>
      { code := 1, output := session.lastBreak, errors := report ++ Outcome.complaint reason }
    | none => { code := 0, output := session.lastBreak, errors := report }

/-- All that the program and the command wrote. -/
def outcome (session : Session Token State) (stats : Bool) : Outcome :=
  let ending := session.ending stats
  { ending with output := session.printed ++ ending.output }

end Session

/-- A program or a script that a command is to deal with. -/
structure Job where
  language : LanguageName
  source : String
  options : Options
  stats : Bool

namespace Job

variable {Token State : Type}

/-- Starts a program with the given random stream and keyboard. -/
def firstTurn (job : Job) (language : Language Token State) (random : RandomStream)
    (keyboard : Keyboard) : Turn Token State :=
  (Engine.create language job.options random {} Clock.stopped).firstTurn job.source keyboard

/-- Lists the tokens of a script. -/
def list (job : Job) : Outcome :=
  match Script.read job.source with
  | .ok script => { code := 0, output := script.describe }
  | .error error => .failed error.message

/-- Deals with a job, given how programs are run. -/
def dealWith {M : Type → Type} [Monad M] (job : Job)
    (run : {Token State : Type} → Language Token State → M Outcome) : M Outcome :=
  match job.language with
  | .brainfuck => run Brainfuck.language
  | .shortO => run (ShortO.language .standard)
  | .chess => run Chess.language
  | .weird => return job.list

/-- Deals with a job in at most `fuel` calls of the engine; nothing if that was too few. -/
def perform (job : Job) (fuel : Nat) (random : RandomStream) (typed : List UInt8) :
    Option Outcome :=
  job.dealWith fun language => do
    let session ← (job.firstTurn language random { unread := typed }).takeAll fuel
    return session.outcome job.stats

end Job

namespace Command

/-- The job of a command whose file has been read. -/
def job (command : Command) (defaults : Options) (content : Except FileFault String) :
    Except String Job :=
  match content with
  | .error fault => .error (unreadableFile command.file fault)
  | .ok source =>
    match command.language? with
    | some language =>
      .ok { language, source, options := command.options defaults, stats := command.stats }
    | none => .error (unknownLanguage command.file)

end Command

/--
Executes a command line, given how to look up variables of the environment, how to read files and
how to deal with jobs.
-/
def executeWords {M : Type → Type} [Monad M] (lookUp : String → M (Option String))
    (readText : String → M (Except FileFault String)) (perform : Job → M Outcome)
    (words : List String) : M Outcome := do
  match Command.parse? words with
  | none => return .misused
  | some command =>
    let defaults ← Settings.ofEnvironment lookUp
    match command.job defaults (← readText command.file) with
    | .error reason => return .failed reason
    | .ok job => perform job

/-- Executes a command line in a folder and an environment. -/
def runCommandLine (fuel : Nat) (folder : Folder) (environment : String → Option String)
    (random : RandomStream) (typed : List UInt8) (words : List String) : Option Outcome :=
  executeWords (M := Option) (fun name => some (environment name))
    (fun file => some (folder.readText file)) (fun job => job.perform fuel random typed) words

end Esoterica
