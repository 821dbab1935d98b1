import Esoterica.Script.Lexeme
import Esoterica.Text.SyntaxError
import Esoterica.Text.Blank

/-!
# Scanning a script

A script is read character by character into lines of lexemes. Names are made of letters, digits and
`_`; a number is `~` with digits of base sixteen, at most `2 ^ 63 - 1`; a string stands between
double quotes on one line; a comment goes from `//` to the end of the line. Where one character is
not enough to decide (`//`, `->`, the end of a name or a number) the scanner is in a mode of its own
until the next one.
-/

namespace Esoterica

namespace Script

/-- The kinds of names, told apart by what stands in front of them. -/
inductive NameKind where
  | key
  | variable
  | constant
  | info
deriving DecidableEq

namespace NameKind

def lexeme (kind : NameKind) (name : String) : Lexeme :=
  match kind with
  | key => .plain (.key name)
  | .variable => .variable name
  | constant => .constant name
  | info => .plain (.info name)

end NameKind

/-- What the next character belongs to. Offsets are those of a lexeme's first character. -/
inductive Mode where
  /-- Between lexemes. -/
  | between
  | name (kind : NameKind) (offset : Nat) (read : String)
  | number (offset : Nat) (value : Nat)
  | string (offset : Nat) (read : String)
  /-- Behind `\` in a string. -/
  | stringEscape (offset : Nat) (read : String)
  /-- Behind `/`: a comment, if another one follows. -/
  | slash (offset : Nat)
  /-- Behind `-`: an arrow, if `>` follows. -/
  | dash (offset : Nat)
  | comment

/-- What was read of a script: lines that are complete, and the lexemes of the one that is not. -/
structure Scan where
  lines : Array (List (Located Lexeme)) := #[]
  line : Array (Located Lexeme) := #[]
  mode : Mode := .between

/-- Whether a character can be part of a name. -/
def isNameChar (c : Char) : Bool :=
  c.isAlphanum || c == '_'

def isOperator (c : Char) : Bool :=
  "!/*+-=%:".toList.contains c

/-- The value of a digit of base sixteen, in either case. -/
def hexDigit? (c : Char) : Option Nat :=
  if c.isDigit then some (c.toNat - '0'.toNat)
  else if 'a' ≤ c ∧ c ≤ 'f' then some (c.toNat - 'a'.toNat + 10)
  else if 'A' ≤ c ∧ c ≤ 'F' then some (c.toNat - 'A'.toNat + 10)
  else none

/-- The greatest number of a script, the greatest signed integer of 64 bits. -/
def greatestNumber : Nat :=
  0x7FFFFFFFFFFFFFFF

namespace Scan

/-- Adds a lexeme to the line; the next character is between lexemes. -/
def push (scan : Scan) (offset : Nat) (lexeme : Lexeme) : Scan :=
  { scan with line := scan.line.push ⟨offset, lexeme⟩, mode := .between }

def endLine (scan : Scan) : Scan where
  lines := scan.lines.push scan.line.toList

/-- Reads a character between lexemes. -/
def stepBetween (scan : Scan) (offset : Nat) (c : Char) : Except Misplaced Scan :=
  if c = '\n' then .ok scan.endLine
  else if isBlank c then .ok { scan with mode := .between }
  else if isNameChar c then .ok { scan with mode := .name .key offset c.toString }
  else
    match c with
    | '"' => .ok { scan with mode := .string offset "" }
    | '~' => .ok { scan with mode := .number offset 0 }
    | '$' => .ok { scan with mode := .name .variable offset "" }
    | '#' => .ok { scan with mode := .name .constant offset "" }
    | '@' => .ok { scan with mode := .name .info offset "" }
    | '/' => .ok { scan with mode := .slash offset }
    | '-' => .ok { scan with mode := .dash offset }
    | '[' | '(' => .ok (scan.push offset (.plain (.openBracket c)))
    | ']' | ')' => .ok (scan.push offset (.plain (.closeBracket c)))
    | _ =>
      if isOperator c then .ok (scan.push offset (.plain (.operator c)))
      else .error ⟨.invalidCharacter c, offset⟩

/-- Ends what was being read where that is allowed, as by a line break or the end of the script. -/
def close (scan : Scan) (offset : Nat) : Except Misplaced Scan :=
  match scan.mode with
  | .between | .comment => .ok { scan with mode := .between }
  | .name kind start read => .ok (scan.push start (kind.lexeme read))
  | .number start value => .ok (scan.push start (.plain (.value (.number value))))
  | .slash start => .ok (scan.push start (.plain (.operator '/')))
  | .dash start => .ok (scan.push start (.plain (.operator '-')))
  | .string _ _ | .stringEscape _ _ => .error ⟨.unterminatedString, offset⟩

/-- Ends what was being read and reads the next character. -/
def closeAndStep (scan : Scan) (offset : Nat) (c : Char) : Except Misplaced Scan := do
  let scan ← scan.close offset
  scan.stepBetween offset c

/-- Reads the character at an offset. -/
def step (scan : Scan) (offset : Nat) (c : Char) : Except Misplaced Scan :=
  match scan.mode with
  | .between => scan.stepBetween offset c
  | .name kind start read =>
    if isNameChar c then .ok { scan with mode := .name kind start (read.push c) }
    else scan.closeAndStep offset c
  | .number start value =>
    match hexDigit? c with
    | some digit =>
      let value := 16 * value + digit
      if greatestNumber < value then .error ⟨.numberTooLarge, start⟩
      else .ok { scan with mode := .number start value }
    | none => scan.closeAndStep offset c
  | .string start read =>
    match c with
    | '"' => .ok (scan.push start (.plain (.value (.text read))))
    | '\\' => .ok { scan with mode := .stringEscape start read }
    | '\n' => .error ⟨.unterminatedString, offset⟩
    | _ => .ok { scan with mode := .string start (read.push c) }
  | .stringEscape start read =>
    match c with
    | 'n' => .ok { scan with mode := .string start (read.push '\n') }
    | '\n' => .error ⟨.unterminatedString, offset⟩
    | _ => .ok { scan with mode := .string start (read.push c) }
  | .slash start =>
    if c = '/' then .ok { scan with mode := .comment }
    else (scan.push start (.plain (.operator '/'))).stepBetween offset c
  | .dash start =>
    if c = '>' then .ok (scan.push start (.plain .arrow))
    else (scan.push start (.plain (.operator '-'))).stepBetween offset c
  | .comment => if c = '\n' then .ok scan.endLine else .ok scan

/-- Reads characters, of which the first has the offset `offset + 1`. -/
def steps (scan : Scan) (offset : Nat) : List Char → Except Misplaced Scan
  | [] => .ok scan
  | c :: rest => do
    let scan ← scan.step (offset + 1) c
    scan.steps (offset + 1) rest

end Scan

/-- The lines of a script, empty ones included. -/
def readLines (source : List Char) : Except Misplaced (List (List (Located Lexeme))) := do
  let scan ← Scan.steps {} 0 source
  let scan ← scan.close source.length
  return scan.endLine.lines.toList

end Script

end Esoterica
