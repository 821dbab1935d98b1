import Esoterica.Binary64.Reading
import Esoterica.Binary64.Writing
import Esoterica.Text.Quoted
import Esoterica.Text.SyntaxError
import Esoterica.Machine.Program
import Esoterica.Machine.Tape
import Esoterica.Dialogue.Prompt
import Esoterica.Machine.PlainRun
import Esoterica.Brainfuck.Basic
import Esoterica.Engine.Basic
import Esoterica.Chess.Play
import Esoterica.ShortO.Language
import Esoterica.Script.Resolve
import Esoterica.CommandLine.Outcome
import Esoterica.Main
import Esoterica.Proofs.Engine.Scheduling
import Esoterica.Proofs.Engine.Transparency
import Esoterica.Proofs.Engine.Replica
import Esoterica.Proofs.Brainfuck.Loops
import Esoterica.Proofs.Brainfuck.Safety
import Esoterica.Proofs.Engine.Consistency
import Esoterica.Proofs.ShortO.Printing
import Esoterica.Proofs.Script.RoundTrip
import Esoterica.Proofs.Script.Constants
import Esoterica.Proofs.Engine.Chronicle
import Esoterica.Proofs.Engine.Blame
import Esoterica.Proofs.Engine.Cancellation
import Esoterica.Proofs.Engine.Typing
import Esoterica.Proofs.ShortO.Definitions
import Esoterica.Proofs.ShortO.Resolution
import Esoterica.Proofs.Engine.Conduct
import Esoterica.Proofs.ShortO.Bound
import Esoterica.Proofs.ShortO.Frame
import Esoterica.Proofs.Terminal.Keyboard
import Esoterica.Proofs.Terminal.Screen
import Esoterica.Proofs.Engine.Lifecycle
import Esoterica.Proofs.Chess.Tokenization
import Esoterica.Proofs.Chess.Loops
import Esoterica.Proofs.Script.Meaning
import Esoterica.Proofs.ShortO.ValueInvariant
import Esoterica.Proofs.ShortO.Values
import Esoterica.Proofs.Engine.Unnoticed
import Esoterica.Proofs.Engine.Restart
import Esoterica.Proofs.Terminal.Session
import Esoterica.Proofs.ShortO.Mistakes
import Esoterica.Proofs.Diagnostics
import Esoterica.Proofs.Comments
import Esoterica.Proofs.ShortO.Blocks
import Esoterica.Proofs.ShortO.NumberLines
import Esoterica.Proofs.Engine.Workload
import Esoterica.Proofs.Script.Layout
import Esoterica.Proofs.Script.Positions
import Esoterica.Proofs.Binary64.Exactness
import Esoterica.Proofs.Binary64.LongestNumber
import Esoterica.Proofs.Binary64.ReadingBack
import Esoterica.Proofs.ShortO.NumberTexts
import Esoterica.Proofs.Machine.Tape
import Esoterica.Proofs.Chess.Output
import Esoterica.Proofs.Binary64.WholeNumbers
import Esoterica.Proofs.ShortO.Repetition
import Esoterica.Proofs.ShortO.Cutting
import Esoterica.Proofs.Machine.Jumps
import Esoterica.Proofs.Script.Numerals
