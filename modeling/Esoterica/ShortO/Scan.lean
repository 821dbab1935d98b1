import Esoterica.Machine.Program
import Esoterica.ShortO.Registry
import Esoterica.Text.SyntaxError

/-!
# Scanning a source of the stack language

The source is read character by character. Outside blocks there is text to print, with `\` before a
character that is meant literally, comments from `//` to the end of the line, and marker definitions
`#name;`. A block `$ ... ;` or `@{ ... }` holds numbers, strings, operators and jumps `#name;`.

Where one character is not enough to decide (`//`, `@{`, the end of a number) the scanner is in a
mode of its own until the next one. A mistake is found at the first character that cannot be right,
or behind the last one if something is left open. Whether jumps name markers that exist is checked
at the end.
-/

namespace Esoterica

namespace ShortO

/-- What the next character belongs to. -/
inductive Mode where
  /-- Text outside blocks, with the part that was read. -/
  | text (read : String)
  /-- Behind `\` in a text. -/
  | textEscape (read : String)
  /-- Behind `/` in a text: a comment, if another one follows. -/
  | textSlash (read : String)
  /-- Behind `@` in a text: a block, if `{` follows. -/
  | textAt (read : String)
  /-- A comment in a text. -/
  | comment (read : String)
  /-- The name of a marker. -/
  | marker (name : String)
  /-- A block that the character `close` ends. -/
  | block (close : Char)
  | string (close : Char) (read : String)
  /-- Behind `\` in a string. -/
  | stringEscape (close : Char) (read : String)
  /-- A number; `point` if its point was read. -/
  | number (close : Char) (read : String) (point : Bool)
  /-- The name after a `#` that has the given offset. -/
  | jump (close : Char) (offset : Nat) (name : String)

/-- What was read of a source. -/
structure Scan where
  tokens : Array Token := #[]
  markers : Markers := {}
  /-- The names of all jumps, with the offsets where they were read. -/
  jumps : Array (String × Nat) := #[]
  mode : Mode := .text ""

namespace Scan

def push (scan : Scan) (token : Token) : Scan :=
  { scan with tokens := scan.tokens.push token }

/-- Ends a text and goes on in another mode; an empty text is no token. -/
def endText (scan : Scan) (read : String) (mode : Mode) : Scan :=
  let scan := if read.isEmpty then scan else scan.push (.text read)
  { scan with mode }

/-- Ends a number. -/
def endNumber (scan : Scan) (read : String) : Scan :=
  scan.push (.value (.ofNumber (Binary64.readStart read.toList)))

/-- Defines a marker at the next token. -/
def endMarker (scan : Scan) (offset : Nat) (name : String) : Except Misplaced Scan :=
  if (scan.markers.find? name).isSome then
    .error ⟨.duplicateMarker name, offset⟩
  else
    .ok { scan with markers := scan.markers.insert name scan.tokens.size, mode := .text "" }

def endJump (scan : Scan) (close : Char) (offset : Nat) (name : String) : Scan :=
  { scan.push (.jump name) with jumps := scan.jumps.push (name, offset), mode := .block close }

/-- Reads a character of a text. -/
def stepText (scan : Scan) (offset : Nat) (read : String) (c : Char) : Except Misplaced Scan :=
  match c with
  | '#' => .ok (scan.endText read (.marker ""))
  | '$' => .ok (scan.endText read (.block ';'))
  | '@' => .ok { scan with mode := .textAt read }
  | '\\' => .ok { scan with mode := .textEscape read }
  | '/' => .ok { scan with mode := .textSlash read }
  | '"' | ';' => .error ⟨.invalidCharacter c, offset⟩
  | _ => .ok { scan with mode := .text (read.push c) }

/-- Reads a character of a block that is not part of a string, a number or a name. -/
def stepBlock (registry : Registry) (scan : Scan) (offset : Nat) (close c : Char) :
    Except Misplaced Scan :=
  if c = close then .ok { scan with mode := .text "" }
  else if c = '"' then .ok { scan with mode := .string close "" }
  else if c = '#' then .ok { scan with mode := .jump close offset "" }
  else if c.isDigit then .ok { scan with mode := .number close c.toString false }
  else if isBlank c then .ok { scan with mode := .block close }
  else if registry.contains c then
    .ok { scan.push (.operator c) with mode := .block close }
  else .error ⟨.invalidCharacter c, offset⟩

/-- The character that stands behind `\` in a string. -/
def unescape : Char → Char
  | 'n' => '\n'
  | 't' => '\t'
  | c => c

/-- Reads the character at an offset. -/
def step (registry : Registry) (scan : Scan) (offset : Nat) (c : Char) : Except Misplaced Scan :=
  match scan.mode with
  | .text read => scan.stepText offset read c
  | .textEscape read => .ok { scan with mode := .text (read.push c) }
  | .textSlash read =>
    if c = '/' then .ok { scan with mode := .comment read }
    else scan.stepText offset (read.push '/') c
  | .textAt read =>
    if c = '\x7b' then .ok (scan.endText read (.block '\x7d'))
    else scan.stepText offset (read.push '@') c
  | .comment read =>
    -- The line break that ends a comment is still text.
    if c = '\n' then .ok { scan with mode := .text (read.push c) } else .ok scan
  | .marker name =>
    if c = ';' then scan.endMarker offset name
    else .ok { scan with mode := .marker (name.push c) }
  | .block close => scan.stepBlock registry offset close c
  | .string close read =>
    if c = '"' then .ok { scan.push (.value (.text read)) with mode := .block close }
    else if c = '\\' then .ok { scan with mode := .stringEscape close read }
    else .ok { scan with mode := .string close (read.push c) }
  | .stringEscape close read => .ok { scan with mode := .string close (read.push (unescape c)) }
  | .number close read point =>
    if c.isDigit then .ok { scan with mode := .number close (read.push c) point }
    else if c = '.' && !point then .ok { scan with mode := .number close (read.push c) true }
    else (scan.endNumber read).stepBlock registry offset close c
  | .jump close jumpOffset name =>
    if c = ';' then .ok (scan.endJump close jumpOffset name)
    else .ok { scan with mode := .jump close jumpOffset (name.push c) }

/-- Reads characters, of which the first has the offset `offset + 1`. -/
def steps (registry : Registry) (scan : Scan) (offset : Nat) : List Char → Except Misplaced Scan
  | [] => .ok scan
  | c :: rest => do
    let scan ← scan.step registry (offset + 1) c
    scan.steps registry (offset + 1) rest

/-- Ends the scan behind the last character, whose offset is given. -/
def finish (scan : Scan) (offset : Nat) : Except Misplaced Scan :=
  match scan.mode with
  | .text read | .comment read => .ok (scan.endText read (.text ""))
  | .textSlash read => .ok (scan.endText (read.push '/') (.text ""))
  | .textAt read => .ok (scan.endText (read.push '@') (.text ""))
  | .textEscape _ => .error ⟨.danglingEscape, offset⟩
  | .marker _ => .error ⟨.unterminatedMarker, offset⟩
  | .block _ | .number _ _ _ => .error ⟨.unterminatedBlock, offset⟩
  | .string _ _ | .stringEscape _ _ => .error ⟨.unterminatedString, offset⟩
  | .jump _ _ _ => .error ⟨.unterminatedJump, offset⟩

/-- The program that was read, if every jump has a marker. -/
def toProgram (scan : Scan) : Except Misplaced (Program Token) :=
  match scan.jumps.find? fun (name, _) => (scan.markers.find? name).isNone with
  | some (name, offset) => .error ⟨.unknownMarker name, offset⟩
  | none => .ok { tokens := scan.tokens, markers := scan.markers }

/-- Reads a whole source. -/
def readSource (registry : Registry) (source : List Char) : Except Misplaced (Program Token) := do
  let scan ← steps registry {} 0 source
  let scan ← scan.finish source.length
  scan.toProgram

end Scan

/-- Reads a program. -/
def read (registry : Registry) (source : String) : Except SyntaxError (Program Token) :=
  let text := source.toList
  (Scan.readSource registry text).mapError (.ofMisplaced text)

end ShortO

end Esoterica
