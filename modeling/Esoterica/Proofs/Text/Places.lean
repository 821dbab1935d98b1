import Esoterica.Proofs.Text.Mistakes

/-!
# Reading without regard to places

A scanner notes where the parts of a text stand and reports mistakes at their places. Nothing else
that it does depends on places: a part of a text can be exchanged for another one that is scanned to
the same up to places, whatever stands around it.
-/

namespace Esoterica

variable {α α' β β' γ δ : Type}

/-- A result as a view shows it, or the cause alone of a mistake. -/
def bare (view : α → β) (result : Except Misplaced α) : Except SyntaxCause β :=
  (result.map view).mapError Misplaced.cause

/-- What a source is read as, through a view, or the cause alone of an error. -/
def outcome (view : α → β) (result : Except SyntaxError α) : Except SyntaxCause β :=
  (result.map view).mapError SyntaxError.cause

theorem outcome_reporting (view : α → β) (reads : List Char → Except Misplaced α)
    (source : String) :
    outcome view (Diagnoses.reporting reads source) = bare view (reads source.toList) := by
  unfold Diagnoses.reporting
  cases reads source.toList with
  | ok result => rfl
  | error misplaced => rfl

/-- Results that views do not tell apart stay so if what is made of them is not told apart. -/
theorem bare_bind {view : α → γ} {viewToo : β → γ} {later : α' → δ} {laterToo : β' → δ}
    {left : Except Misplaced α} {right : Except Misplaced β} {leftNext : α → Except Misplaced α'}
    {rightNext : β → Except Misplaced β'} (same : bare view left = bare viewToo right)
    (onward : ∀ left right, view left = viewToo right →
      bare later (leftNext left) = bare laterToo (rightNext right)) :
    bare later (left.bind leftNext) = bare laterToo (right.bind rightNext) := by
  cases left with
  | ok left =>
      cases right with
      | ok right => exact onward left right (Except.ok.inj same)
      | error misplaced => cases same
  | error misplaced =>
      cases right with
      | ok right => cases same
      | error other => exact congrArg Except.error (Except.error.inj same)

namespace Scanner

variable {Scan : Type} {step : Scan → Nat → Char → Except Misplaced Scan}
  {steps : Scan → Nat → List Char → Except Misplaced Scan}
  {finish : Scan → Nat → Except Misplaced α} {view : Scan → γ} {result : α → δ}

/-- Scans that a view does not tell apart go on and end in ways that views do not tell apart. -/
structure Blind (step : Scan → Nat → Char → Except Misplaced Scan)
    (finish : Scan → Nat → Except Misplaced α) (view : Scan → γ) (result : α → δ) : Prop where
  step : ∀ left right, view left = view right → ∀ leftOffset rightOffset c,
    bare view (step left leftOffset c) = bare view (step right rightOffset c)
  finish : ∀ left right, view left = view right → ∀ leftOffset rightOffset,
    bare result (finish left leftOffset) = bare result (finish right rightOffset)

theorem bare_steps (scanner : Scanner step steps) (blind : Blind step finish view result)
    {left right : Scan} (same : view left = view right) (leftOffset rightOffset : Nat)
    (text : List Char) :
    bare view (steps left leftOffset text) = bare view (steps right rightOffset text) := by
  induction text generalizing left right leftOffset rightOffset with
  | nil =>
      rw [scanner.nil, scanner.nil]
      exact congrArg Except.ok same
  | cons c rest ih =>
      rw [scanner.cons, scanner.cons]
      apply bare_bind (blind.step left right same (leftOffset + 1) (rightOffset + 1) c)
      intro left right same
      exact ih same (leftOffset + 1) (rightOffset + 1)

/-- A part that is scanned without a mistake is so at any other place. -/
theorem exists_elsewhere (scanner : Scanner step steps) (blind : Blind step finish view result)
    {scan next : Scan} {offset : Nat} {text : List Char} (reads : steps scan offset text = .ok next)
    (otherOffset : Nat) :
    ∃ other, steps scan otherOffset text = .ok other ∧ view next = view other := by
  have sameStart : view scan = view scan := rfl
  have same := scanner.bare_steps blind sameStart offset otherOffset text
  rw [reads] at same
  cases elsewhere : steps scan otherOffset text with
  | error misplaced =>
      rw [elsewhere] at same
      cases same
  | ok other =>
      rw [elsewhere] at same
      exact ⟨other, rfl, Except.ok.inj same⟩

/-- Parts that are scanned to the same up to places can be exchanged. -/
theorem bare_exchange (scanner : Scanner step steps) (blind : Blind step finish view result)
    {first scan afterLeft afterRight : Scan} {before left right : List Char}
    (reads : steps first 0 before = .ok scan)
    (readsLeft : steps scan before.length left = .ok afterLeft)
    (readsRight : steps scan before.length right = .ok afterRight)
    (same : view afterLeft = view afterRight) (after : List Char) :
    bare result ((steps first 0 (before ++ left ++ after)).bind fun scan =>
        finish scan (before ++ left ++ after).length) =
      bare result ((steps first 0 (before ++ right ++ after)).bind fun scan =>
        finish scan (before ++ right ++ after).length) := by
  have readsPart (part : List Char) :
      steps first 0 (before ++ part) = steps scan before.length part := by
    rw [scanner.append_of_ok reads, Nat.zero_add]
  rw [scanner.append_of_ok ((readsPart left).trans readsLeft),
    scanner.append_of_ok ((readsPart right).trans readsRight)]
  apply bare_bind (scanner.bare_steps blind same _ _ after)
  intro left right same
  exact blind.finish left right same _ _

end Scanner

end Esoterica
