/-!
# Keys

The key presses that a host delivers.
-/

namespace Esoterica

inductive Key where
  | char (c : Char)
  | enter
  | tab
  /-- Also the delete key. -/
  | backspace
  | escape
deriving DecidableEq

namespace Key

/-- The key with a name; a name of one character is that character's key. -/
def ofName? (name : String) : Option Key :=
  match name with
  | "Enter" => some enter
  | "Tab" => some tab
  | "Backspace" | "Delete" => some backspace
  | "Escape" => some escape
  | _ =>
    match name.toList with
    | [c] => some (char c)
    | _ => none

/-- The character a key stands for when a single character is asked for. -/
def toChar? : Key → Option Char
  | char c => some c
  | enter => some '\n'
  | tab => some '\t'
  | backspace => some '\x08'
  | escape => none

end Key

end Esoterica
