import Esoterica.Text.Blank
import Esoterica.Text.SyntaxError

/-!
# Words

The words of a text are its maximal runs of characters that are not blank. Each knows where it
stands, so that an error can be reported for the word as a whole.
-/

namespace Esoterica

/-- A maximal run of characters that are not blank. -/
structure Word where
  /-- The position of its first character, counted from one. -/
  offset : Nat
  text : List Char
deriving DecidableEq

namespace Word

/-- Puts a character in front of the words that follow it. -/
def prepend (offset : Nat) (c : Char) (later : List Word) : List Word :=
  match later with
  | word :: more =>
    if word.offset = offset + 1 then ⟨offset, c :: word.text⟩ :: more else ⟨offset, [c]⟩ :: later
  | [] => [⟨offset, [c]⟩]

/-- The words of a text whose first character has the given position. -/
def split (offset : Nat) : List Char → List Word
  | [] => []
  | c :: rest =>
    let later := split (offset + 1) rest
    if isBlank c then later else prepend offset c later

/-- The error that a word is to blame for. -/
def error (word : Word) (cause : SyntaxCause) : SyntaxError where
  cause := cause
  offset := word.offset
  excerpt := String.ofList word.text

end Word

end Esoterica
