/-!
# Consoles

A console holds the text a program has written and, behind it, the echo of a line that is being
typed. It records every change it undergoes, in order, until the changes are taken and reported.
-/

namespace Esoterica

/-- One visible change of a console. -/
inductive Change where
  | appended (text : String)
  /-- Only this many characters of the output were kept. -/
  | truncated (length : Nat)
  | cleared
  /-- The echo became this text. -/
  | echoed (echo : String)
  /-- A typed line was committed; `kept` if it becomes part of the output. -/
  | committed (line : String) (kept : Bool)
deriving DecidableEq

structure Console where
  output : String := ""
  echo : String := ""
  /-- The changes not yet reported, oldest first. -/
  changes : Array Change := #[]
deriving DecidableEq

namespace Console

/-- What the console shows. -/
def rendered (console : Console) : String :=
  console.output ++ console.echo

/-- The number of characters of the output. -/
def length (console : Console) : Nat :=
  console.output.length

def charAt? (console : Console) (index : Nat) : Option Char :=
  (console.output.drop index).front?

/-- Adds a text to the output; an empty text changes nothing. -/
def write (console : Console) (text : String) : Console :=
  if text.isEmpty then console
  else
    { console with
      output := console.output ++ text
      changes := console.changes.push (.appended text) }

def writeChar (console : Console) (c : Char) : Console :=
  console.write c.toString

/-- Keeps the first characters of the output, if there are more than that. -/
def keepFirst (console : Console) (length : Nat) : Console :=
  if console.length ≤ length then console
  else
    { console with
      output := (console.output.dropEnd (console.length - length)).copy
      changes := console.changes.push (.truncated length) }

/-- Removes characters from the end of the output. -/
def eraseLast (console : Console) (count : Nat) : Console :=
  console.keepFirst (console.length - count)

/-- Removes the whole output. -/
def clear (console : Console) : Console :=
  if console.output.isEmpty then console
  else { console with output := "", changes := console.changes.push .cleared }

/-- Replaces the echo and records it. -/
def setEcho (console : Console) (echo : String) : Console :=
  { console with echo, changes := console.changes.push (.echoed echo) }

def echoChar (console : Console) (c : Char) : Console :=
  console.setEcho (console.echo.push c)

/-- Removes the last character of the echo, if there is one. -/
def rubOut? (console : Console) : Option Console :=
  if console.echo.isEmpty then none
  else some (console.setEcho (console.echo.dropEnd 1).copy)

/-- Removes the echo. -/
def dropEcho (console : Console) : Console :=
  if console.echo.isEmpty then console else console.setEcho ""

/-- Ends the line that is being typed and moves it into the output if it is to be kept. -/
def commit (console : Console) (keep : Bool) : Console :=
  let line := console.echo
  let console := console.dropEcho
  if line.isEmpty then console
  else
    let console := { console with changes := console.changes.push (.committed line keep) }
    if keep then console.write line else console

/-- Removes echo and output. -/
def wipe (console : Console) : Console :=
  console.dropEcho.clear

end Console

end Esoterica
