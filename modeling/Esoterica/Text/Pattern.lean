/-!
# Patterns

A pattern is a text that is looked for in other texts. With each of its characters it holds how much
of its start is repeated by what ends there, so that after a mismatch the search goes on with that
much already found. No character of a text is looked at twice, and a search takes time in proportion
to the two lengths.
-/

namespace Esoterica

structure Pattern where
  /--
  The characters, each with the length of the longest start of the pattern that also ends with this
  character and is not all that stands up to here.
  -/
  steps : Array (Char × Nat) := #[]
  repeated_le : ∀ (index : Nat) (h : index < steps.size), steps[index].2 ≤ index := by simp

namespace Pattern

/-- The number of characters. -/
def length (pattern : Pattern) : Nat :=
  pattern.steps.size

/-- How much of the pattern a text ends with after one more character, if it was `found` before. -/
def advance (pattern : Pattern) (c : Char) (found : Nat) : Nat :=
  if pattern.steps[found]?.any (·.1 == c) then
    found + 1
  else
    match found with
    | 0 => 0
    | before + 1 =>
      if h : before < pattern.steps.size then pattern.advance c pattern.steps[before].2 else 0
termination_by found
decreasing_by exact Nat.lt_succ_of_le (pattern.repeated_le before h)

theorem advance_le (pattern : Pattern) (c : Char) (found : Nat) :
    pattern.advance c found ≤ found + 1 := by
  fun_induction pattern.advance c found with
  | case1 => exact Nat.le_refl _
  | case2 => omega
  | case3 before h _ ih =>
      have := pattern.repeated_le before h
      omega
  | case4 => omega

/-- What is found beside the whole of a pattern is shorter than it with the new character. -/
theorem advance_length_le (pattern : Pattern) (c : Char) :
    pattern.advance c pattern.length ≤ pattern.length := by
  unfold advance length
  split
  case isTrue found => simp at found
  case isFalse =>
    split
    case h_1 => omega
    case h_2 before size_eq =>
      split
      case isTrue h =>
        have := pattern.repeated_le before h
        have := pattern.advance_le c pattern.steps[before].2
        omega
      case isFalse => omega

/-- The pattern with one more character at its end. -/
def push (pattern : Pattern) (c : Char) : Pattern where
  steps := pattern.steps.push (c, pattern.advance c pattern.length)
  repeated_le index h := by
    rw [Array.getElem_push]
    split
    case isTrue h => exact pattern.repeated_le index h
    case isFalse h' =>
      have := pattern.advance_length_le c
      simp only [length] at this ⊢
      omega

def ofText (text : String) : Pattern :=
  text.toList.foldl push {}

/--
Reads one more character of a text. Of the text so far `kept` is left, and it ends with `found`
characters of the pattern; once that is all of it, the occurrence is removed.
-/
def eraseNext (pattern : Pattern) : Array Char × Nat → Char → Array Char × Nat
  | (kept, found), c =>
    let kept := kept.push c
    let found := pattern.advance c found
    if found = pattern.length then (kept.shrink (kept.size - found), 0) else (kept, found)

/--
A text without the occurrences of the pattern, looked for from left to right and not overlapping. An
empty pattern removes nothing.
-/
def eraseFrom (pattern : Pattern) (text : String) : String :=
  String.ofList (text.toList.foldl pattern.eraseNext (#[], 0)).1.toList

end Pattern

end Esoterica
