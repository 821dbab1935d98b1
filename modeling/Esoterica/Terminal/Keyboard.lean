import Esoterica.Dialogue.Key

/-!
# Keyboards

A keyboard gives the keys of a stream of bytes. The stream is read a line at a time, up to and
including the next line break, and a line that is not UTF-8 cannot be read.
-/

namespace Esoterica

namespace Key

/-- The key that a typed character stands for; a carriage return stands for none. -/
def ofTyped? : Char → Option Key
  | '\r' => none
  | '\n' => some enter
  | '\t' => some tab
  | '\x08' | '\x7f' => some backspace
  | '\x1b' => some escape
  | c => some (char c)

end Key

/-- A line was read that is not UTF-8. -/
structure InvalidText where
deriving DecidableEq

namespace InvalidText

def message (_ : InvalidText) : String :=
  "stream did not contain valid UTF-8"

end InvalidText

structure Keyboard where
  /-- The bytes of the lines not yet read. -/
  unread : List UInt8
  /-- The characters of the current line not yet used. -/
  pending : List Char := []

namespace Keyboard

/-- The first line, with its line break, and what follows it. -/
def splitLine : List UInt8 → List UInt8 × List UInt8
  | [] => ([], [])
  | byte :: rest =>
    if byte = 10 then ([byte], rest)
    else
      let (line, after) := splitLine rest
      (byte :: line, after)

theorem length_splitLine_le (bytes : List UInt8) : (splitLine bytes).2.length ≤ bytes.length := by
  induction bytes with
  | nil => simp [splitLine]
  | cons byte rest ih =>
      simp only [splitLine]
      split
      · simp
      · simp only [List.length_cons]
        omega

theorem length_splitLine_lt (byte : UInt8) (rest : List UInt8) :
    (splitLine (byte :: rest)).2.length < (byte :: rest).length := by
  have := length_splitLine_le rest
  simp only [splitLine]
  split
  · simp
  · simp only [List.length_cons]
    omega

/-- The characters that bytes encode. -/
def decode? (bytes : List UInt8) : Option (List Char) :=
  (String.fromUTF8? ⟨bytes.toArray⟩).map String.toList

/-- The key of the first character that has one, and the characters behind it. -/
def firstKey? : List Char → Option (Key × List Char)
  | [] => none
  | c :: rest =>
    match Key.ofTyped? c with
    | some key => some (key, rest)
    | none => firstKey? rest

/-- The next key, given what is left of the current line and the lines not yet read. -/
def takeFrom (pending : List Char) (unread : List UInt8) :
    Except InvalidText (Option Key) × Keyboard :=
  match firstKey? pending with
  | some (key, pending) => (.ok (some key), { unread, pending })
  | none =>
    match unread with
    | [] => (.ok none, { unread := [] })
    | byte :: rest =>
      match decode? (splitLine (byte :: rest)).1 with
      | some line => takeFrom line (splitLine (byte :: rest)).2
      | none => (.error {}, { unread := (splitLine (byte :: rest)).2 })
termination_by unread.length
decreasing_by exact length_splitLine_lt byte rest

/-- The next key, or nothing at the end of the stream. -/
def take (keyboard : Keyboard) : Except InvalidText (Option Key) × Keyboard :=
  takeFrom keyboard.pending keyboard.unread

end Keyboard

end Esoterica
