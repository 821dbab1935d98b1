import Esoterica.Proofs.ShortO.Printing
import Esoterica.Proofs.Text.Mistakes

/-!
# Mistakes in sources of the stack language

What is open at the end of a source is found behind its last character, and a jump without a marker
is reported where it was read. All other mistakes are found at once. What a step does is gone
through here once, for its mistakes and for all that steps keep.
-/

namespace Esoterica

namespace ShortO

open Misplaced

/-- The offset of the jump whose name is being read. -/
def Mode.start? : Mode → Option Nat
  | .jump _ offset _ => some offset
  | _ => none

namespace Scan

/-- Whatever a step at an offset can do to a scan keeps a property of it. -/
structure KeptAt (registry : Registry) (offset : Nat) (holds : Scan → Prop) : Prop where
  withMode : ∀ scan mode,
    (∀ start ∈ mode.start?, start = offset ∨ start ∈ scan.mode.start?) →
      holds scan → holds { scan with mode }
  text : ∀ scan read, holds scan → holds (scan.push (.text read))
  string : ∀ scan read, holds scan → holds (scan.push (.value (.text read)))
  number : ∀ scan read, holds scan → holds (scan.endNumber read)
  operator : ∀ scan symbol, registry.contains symbol = true → holds scan →
    holds (scan.push (.operator symbol))
  jump : ∀ scan close start name, start ∈ scan.mode.start? → holds scan →
    holds (scan.endJump close start name)
  marker : ∀ scan name next, holds scan → scan.endMarker offset name = .ok next → holds next

namespace KeptAt

variable {registry : Registry} {holds : Scan → Prop} {scan : Scan} {offset : Nat}
  (kept : KeptAt registry offset holds)

include kept

/-- A mode other than that of a jump can follow on every mode. -/
theorem change {mode : Mode} (noJump : mode.start? = none) (held : holds scan) :
    holds { scan with mode } := by
  apply kept.withMode scan mode _ held
  simp [noJump]

theorem endText {mode : Mode} (read : String) (noJump : mode.start? = none) (held : holds scan) :
    holds (scan.endText read mode) := by
  simp only [Scan.endText]
  split
  · exact kept.change noJump held
  · exact kept.change noJump (kept.text scan read held)

theorem endMarker (name : String) (held : holds scan) :
    Reading holds (ShowsAt offset ';') (scan.endMarker offset name) := by
  cases ends : scan.endMarker offset name with
  | ok next => exact .ok (kept.marker scan name next held ends)
  | error misplaced =>
      simp only [Scan.endMarker] at ends
      split at ends
      · cases ends
        exact .error (showsAt_duplicateMarker offset name)
      · cases ends

theorem stepText (read : String) (c : Char) (held : holds scan) :
    Reading holds (ShowsAt offset c) (scan.stepText offset read c) := by
  unfold Scan.stepText
  split
  · exact .ok (kept.endText read rfl held)
  · exact .ok (kept.endText read rfl held)
  · exact .ok (kept.change rfl held)
  · exact .ok (kept.change rfl held)
  · exact .ok (kept.change rfl held)
  · exact .error (showsAt_invalidCharacter offset _)
  · exact .error (showsAt_invalidCharacter offset _)
  · exact .ok (kept.change rfl held)

theorem stepBlock (close c : Char) (held : holds scan) :
    Reading holds (ShowsAt offset c) (scan.stepBlock registry offset close c) := by
  unfold Scan.stepBlock
  split
  · exact .ok (kept.change rfl held)
  split
  · exact .ok (kept.change rfl held)
  split
  · refine .ok (kept.withMode scan _ ?_ held)
    simp [Mode.start?]
  split
  · exact .ok (kept.change rfl held)
  split
  · exact .ok (kept.change rfl held)
  split
  · rename_i registered
    exact .ok (kept.change rfl (kept.operator scan c registered held))
  · exact .error (showsAt_invalidCharacter offset c)

theorem step (c : Char) (held : holds scan) :
    Reading holds (ShowsAt offset c) (scan.step registry offset c) := by
  unfold Scan.step
  cases mode : scan.mode with
  | text read => exact kept.stepText read c held
  | textEscape read => exact .ok (kept.change rfl held)
  | textSlash read =>
      simp only
      split
      · exact .ok (kept.change rfl held)
      · exact kept.stepText _ c held
  | textAt read =>
      simp only
      split
      · exact .ok (kept.endText read rfl held)
      · exact kept.stepText _ c held
  | comment read =>
      simp only
      split
      · exact .ok (kept.change rfl held)
      · exact .ok held
  | marker name =>
      simp only
      split
      · rename_i isEnd
        rw [isEnd]
        exact kept.endMarker name held
      · exact .ok (kept.change rfl held)
  | block close => exact kept.stepBlock close c held
  | string close read =>
      simp only
      split
      · exact .ok (kept.change rfl (kept.string scan read held))
      split
      · exact .ok (kept.change rfl held)
      · exact .ok (kept.change rfl held)
  | stringEscape close read => exact .ok (kept.change rfl held)
  | number close read point =>
      simp only
      split
      · exact .ok (kept.change rfl held)
      split
      · exact .ok (kept.change rfl held)
      · exact kept.stepBlock close c (kept.number scan read held)
  | jump close start name =>
      have reading : start ∈ scan.mode.start? := by simp [mode, Mode.start?]
      simp only
      split
      · exact .ok (kept.jump scan close start name reading held)
      · refine .ok (kept.withMode scan _ ?_ held)
        simp [mode, Mode.start?]

theorem finish (held : holds scan) : Reading holds (Deferred offset) (scan.finish offset) := by
  unfold Scan.finish
  split
  · exact .ok (kept.endText _ rfl held)
  · exact .ok (kept.endText _ rfl held)
  · exact .ok (kept.endText _ rfl held)
  · exact .ok (kept.endText _ rfl held)
  all_goals exact .error ⟨Nat.le_refl offset, rfl⟩

end KeptAt

/-- The jumps that were read stand up to an offset. -/
structure Within (offset : Nat) (scan : Scan) : Prop where
  jumps : ∀ jump ∈ scan.jumps, jump.2 ≤ offset
  mode : ∀ start ∈ scan.mode.start?, start ≤ offset

theorem Within.succ {scan : Scan} {offset : Nat} (within : scan.Within offset) :
    scan.Within (offset + 1) := by
  refine ⟨?_, ?_⟩
  · intro jump mem
    exact Nat.le_succ_of_le (within.jumps jump mem)
  · intro start mem
    exact Nat.le_succ_of_le (within.mode start mem)

theorem keptAt_within (registry : Registry) (offset : Nat) :
    KeptAt registry offset (Within offset) where
  withMode scan mode follows within := by
    refine ⟨within.jumps, ?_⟩
    intro start mem
    rcases follows start mem with rfl | read
    · exact Nat.le_refl start
    · exact within.mode start read
  text _ _ within := ⟨within.jumps, within.mode⟩
  string _ _ within := ⟨within.jumps, within.mode⟩
  number _ _ within := ⟨within.jumps, within.mode⟩
  operator _ _ _ within := ⟨within.jumps, within.mode⟩
  jump scan close start name reading within := by
    refine ⟨?_, by simp [endJump, Mode.start?]⟩
    intro jump mem
    rcases Array.mem_push.mp mem with mem | rfl
    · exact within.jumps jump mem
    · exact within.mode start reading
  marker scan name next within ends := by
    simp only [endMarker] at ends
    split at ends
    · cases ends
    · cases ends
      exact ⟨within.jumps, by simp [Mode.start?]⟩

theorem Within.toProgram {scan : Scan} {offset : Nat} (within : scan.Within offset) :
    Reading (fun _ => True) (Deferred offset) scan.toProgram := by
  unfold Scan.toProgram
  split
  · rename_i name start found
    exact .error ⟨within.jumps _ (Array.mem_of_find?_eq_some found), rfl⟩
  · exact .ok trivial

theorem diagnoses_readSource (registry : Registry) : Diagnoses (readSource registry) := by
  have fresh : Within 0 {} := ⟨by simp, by simp [Mode.start?]⟩
  have step (scan : Scan) (offset : Nat) (c : Char) (within : scan.Within offset) :
      Reading (Within (offset + 1)) (ShowsAt (offset + 1) c) (scan.step registry (offset + 1) c) :=
    (keptAt_within registry (offset + 1)).step c within.succ
  have finish (scan : Scan) (length : Nat) (within : scan.Within length) :
      Reading (fun _ => True) (Deferred length) ((scan.finish length).bind toProgram) :=
    ((keptAt_within registry length).finish within).bind fun _ finished => finished.toProgram
  have diagnoses := scanner.diagnoses step finish fresh
  exact diagnoses

end Scan

end ShortO

end Esoterica
