import Esoterica.Proofs.Binary64.ReadingBack
import Esoterica.Proofs.ShortO.NumberLines

/-!
# Numbers as texts

The operator `S` makes a text of the value on top of the stack, and `~` makes a number of it. One
after the other they restore every number, whatever is below it and whatever program they stand in.
Only the sign of a zero is lost, which no comparison sees.
-/

namespace Esoterica

namespace ShortO

open Binary64

theorem ofNumber_withoutZeroSign (negative : Bool) (magnitude : Magnitude) :
    Value.ofNumber (withoutZeroSign (finite negative magnitude)) =
      .number (withoutZeroSign (finite negative magnitude)) := by
  unfold withoutZeroSign
  split
  · rfl
  · rfl

theorem toNumber_toText (negative : Bool) (magnitude : Magnitude) :
    (Value.text (finite negative magnitude).toText).toNumber =
      .number (withoutZeroSign (finite negative magnitude)) := by
  rw [Value.toNumber, toText, String.toList_ofList, readStart_write, ofNumber_withoutZeroSign]

/--
A finite number is read back from its text, up to the sign of a zero, so as a number that compares
equal. Wherever the operators `S` and `~` follow each other in a program and a number is on top of
the stack, a run passes both without a fault and without an answer. Behind them the stack has the
number that was read back in place of the number, and nothing else has changed.
-/
theorem text_restores_number (negative : Bool) (magnitude : Magnitude) :
    let number := finite negative magnitude
    let restored := withoutZeroSign number
    readStart number.toText.toList = restored ∧ compare? restored number = some .eq ∧
      ∀ (machine : Machine Token Stack) (below : Stack),
        machine.state = below.push (.number number) → below.isFull = false →
        machine.program.current? = some (.operator 'S') →
        machine.behind.program.current? = some (.operator '~') →
          ∃ steps, (language .standard).Passage machine [] steps
              { machine.behind.behind with state := below.push (.number restored) } ∧
            ∀ step ∈ steps, step.fault? = none := by
  intro number restored
  refine ⟨?_, compare?_withoutZeroSign negative magnitude, ?_⟩
  · rw [toText, String.toList_ofList]
    exact readStart_write negative magnitude
  · intro machine below pushed room first second
    let between : Machine Token Stack :=
      { machine.behind with state := below.push (.text number.toText) }
    have writes : (language .standard).perform (.operator 'S') machine.behind =
        (.ok .proceed, between) := by
      have pushed : machine.behind.state = below.push (.number number) := pushed
      exact perform_mapTop (f := fun value => .text value.toText) rfl pushed room
    have reads : (language .standard).perform (.operator '~') between.behind =
        (.ok .proceed,
          { machine.behind.behind with state := below.push (.number restored) }) := by
      rw [← toNumber_toText]
      exact perform_mapTop rfl rfl room
    have written := Language.Passage.nil.snoc (.goesOn first writes (.inl rfl))
    have restores := written.snoc (.goesOn second reads (.inl rfl))
    exact ⟨_, restores, by simp [PlainStep.fault?]⟩

/-- A tenth, which no binary64 number is exactly, above another value. -/
theorem text_restores_number_of_tenth :
    let tenth : Magnitude :=
      { significand := 7205759403792794, exponent := 1018, significand_lt := by decide,
        exponent_le := by decide, normal := by decide }
    let number := finite true tenth
    let below : Stack := { values := #[.text "below"], capacity := 2 }
    let machine : Machine Token Stack :=
      { program := { tokens := #[.operator 'S', .operator '~'] },
        state := below.push (.number number), random := .zeros }
    number.toText = "-0.1" ∧ readStart "-0.1".toList = number ∧
      ∃ steps, (language .standard).Passage machine [] steps
          { machine.behind.behind with state := below.push (.number number) } ∧
        ∀ step ∈ steps, step.fault? = none := by
  intro tenth number below machine
  have written : number.toText = "-0.1" := by decide +kernel
  have signed : withoutZeroSign number = number := by decide +kernel
  rcases text_restores_number true tenth with ⟨restores, _, passes⟩
  rw [written, signed] at restores
  have passage := passes machine below rfl (by decide) rfl rfl
  rw [signed] at passage
  exact ⟨written, restores, passage⟩

end ShortO

end Esoterica
