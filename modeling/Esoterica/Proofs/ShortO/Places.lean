import Esoterica.Proofs.ShortO.Printing
import Esoterica.Proofs.Text.Places

/-!
# Places in sources of the stack language

A scan remembers where jumps stand, to report those without a marker. Tokens, markers and the causes
of mistakes do not depend on that. So a part of a source can be exchanged for another one that is
scanned alike; where that is outside names, blocks and comments, the text before it goes on.
-/

namespace Esoterica

namespace ShortO

namespace Mode

/-- The mode without the place of a jump. -/
def unplaced : Mode → Mode
  | jump close _ name => jump close 0 name
  | mode => mode

/-- The text up to the next character, outside names, blocks and comments and not behind `\`. -/
def outer? : Mode → Option String
  | text read => some read
  | textSlash read => some (read.push '/')
  | textAt read => some (read.push '@')
  | _ => none

end Mode

namespace Scan

/-- The scan without the places of jumps. -/
def unplaced (scan : Scan) : Scan :=
  { scan with
    jumps := scan.jumps.map fun jump => (jump.1, 0)
    mode := scan.mode.unplaced }

variable {registry : Registry} (scan : Scan) (offset : Nat)

theorem endText_unplaced (read : String) {mode : Mode} (placeless : mode.unplaced = mode) :
    (scan.endText read mode).unplaced = scan.unplaced.endText read mode := by
  unfold endText
  split
  · simp only [unplaced, placeless]
  · simp only [unplaced, placeless, push]

theorem endJump_unplaced (close : Char) (name : String) :
    (scan.endJump close offset name).unplaced = scan.unplaced.endJump close 0 name := by
  simp [endJump, unplaced, push, Mode.unplaced]

theorem endMarker_unplaced (name : String) :
    bare unplaced (scan.endMarker offset name) = bare id (scan.unplaced.endMarker 0 name) := by
  unfold endMarker
  rw [show scan.unplaced.markers = scan.markers from rfl]
  split
  · rfl
  · rfl

theorem stepText_unplaced (read : String) (c : Char) :
    bare unplaced (scan.stepText offset read c) = bare id (scan.unplaced.stepText 0 read c) := by
  unfold stepText
  split
  · exact congrArg Except.ok (scan.endText_unplaced read rfl)
  · exact congrArg Except.ok (scan.endText_unplaced read rfl)
  all_goals rfl

theorem stepBlock_unplaced (close c : Char) :
    bare unplaced (scan.stepBlock registry offset close c) =
      bare id (scan.unplaced.stepBlock registry 0 close c) := by
  unfold stepBlock
  repeat' split
  all_goals rfl

/-- What a character does depends neither on its own place nor on those of jumps. -/
theorem step_unplaced (c : Char) :
    bare unplaced (scan.step registry offset c) = bare id (scan.unplaced.step registry 0 c) := by
  unfold step
  rw [show scan.unplaced.mode = scan.mode.unplaced from rfl]
  cases scan.mode with
  | text read => exact scan.stepText_unplaced offset read c
  | textSlash read =>
      simp only [Mode.unplaced]
      split
      · rfl
      · exact scan.stepText_unplaced offset _ c
  | textAt read =>
      simp only [Mode.unplaced]
      split
      · exact congrArg Except.ok (scan.endText_unplaced read rfl)
      · exact scan.stepText_unplaced offset _ c
  | marker name =>
      simp only [Mode.unplaced]
      split
      · exact scan.endMarker_unplaced offset name
      · rfl
  | block close => exact scan.stepBlock_unplaced offset close c
  | number close read point =>
      simp only [Mode.unplaced]
      split
      · rfl
      split
      · rfl
      · exact (scan.endNumber read).stepBlock_unplaced offset close c
  | jump close start name =>
      simp only [Mode.unplaced]
      split
      · exact congrArg Except.ok (scan.endJump_unplaced start close name)
      · rfl
  | textEscape | comment | string | stringEscape =>
      simp only [Mode.unplaced]
      repeat' split
      all_goals rfl

theorem finish_unplaced :
    bare unplaced (scan.finish offset) = bare id (scan.unplaced.finish 0) := by
  unfold finish
  rw [show scan.unplaced.mode = scan.mode.unplaced from rfl]
  cases scan.mode with
  | text read | comment read | textSlash read | textAt read =>
      exact congrArg Except.ok (scan.endText_unplaced _ rfl)
  | textEscape | marker | block | number | string | stringEscape | jump => rfl

theorem toProgram_unplaced : bare id scan.toProgram = bare id scan.unplaced.toProgram := by
  have found : (scan.unplaced.jumps.find? fun jump => (scan.markers.find? jump.1).isNone) =
      (scan.jumps.find? fun jump => (scan.markers.find? jump.1).isNone).map
        fun jump => (jump.1, 0) := by
    simp [unplaced, Array.find?_map, Function.comp_def]
  have sameMarkers : scan.unplaced.markers = scan.markers := rfl
  simp only [toProgram, sameMarkers, found]
  cases scan.jumps.find? fun jump => (scan.markers.find? jump.1).isNone with
  | none => rfl
  | some jump => rfl

theorem blind :
    Scanner.Blind (step registry) (fun scan length => (scan.finish length).bind toProgram) unplaced
      id where
  step left right same leftOffset rightOffset c := by
    rw [step_unplaced left, same, ← step_unplaced right]
  finish left right same leftOffset rightOffset := by
    have finished : bare unplaced (left.finish leftOffset) =
        bare unplaced (right.finish rightOffset) := by
      rw [finish_unplaced left, same, ← finish_unplaced right]
    apply bare_bind finished
    intro left right same
    rw [toProgram_unplaced left, same, ← toProgram_unplaced right]

/-- Parts of a source that are scanned to the same up to places can be exchanged. -/
theorem outcome_exchange {before left right : String} {scan afterLeft afterRight : Scan}
    (reads : steps registry {} 0 before.toList = .ok scan)
    (readsLeft : scan.steps registry before.toList.length left.toList = .ok afterLeft)
    (readsRight : scan.steps registry before.toList.length right.toList = .ok afterRight)
    (same : afterLeft.unplaced = afterRight.unplaced) (after : String) :
    outcome id (read registry (before ++ left ++ after)) =
      outcome id (read registry (before ++ right ++ after)) := by
  have reporting (source : String) : outcome id (read registry source) =
      bare id (readSource registry source.toList) :=
    outcome_reporting id (readSource registry) source
  simp only [reporting, String.toList_append]
  exact scanner.bare_exchange blind reads readsLeft readsRight same after.toList

variable {scan}

/-- A character that makes no comment and no block of what stands before it is one of the text. -/
theorem step_of_outer {read : String} (outer : scan.mode.outer? = some read) {c : Char}
    (noComment : c = '/' → ∀ before, scan.mode ≠ .textSlash before) (noBlock : c ≠ '\x7b') :
    scan.step registry offset c = scan.stepText offset read c := by
  unfold step
  cases mode : scan.mode with
  | text =>
      rw [mode] at outer
      cases outer
      rfl
  | textSlash before =>
      rw [mode] at outer
      cases outer
      exact if_neg fun isSlash => noComment isSlash before mode
  | textAt =>
      rw [mode] at outer
      cases outer
      exact if_neg noBlock
  | textEscape | comment | marker | block | string | stringEscape | number | jump =>
      rw [mode] at outer
      cases outer

end Scan

end ShortO

end Esoterica
