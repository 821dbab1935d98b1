import Esoterica.Proofs.Scanning

/-!
# Where mistakes show

A scanner finds a mistake at some character, or when the whole text has been read. A character that
cannot stand where it does is found at once, and so is the end of a marker that was set before: what
follows in the text plays no part in it.
-/

namespace Esoterica

/-- The character at which a mistake of this cause is found at once, if there is one. -/
def SyntaxCause.culprit? : SyntaxCause → Option Char
  | invalidCharacter c => some c
  | duplicateMarker _ => some ';'
  | _ => none

namespace Misplaced

/-- The mistake was found at a character; if it is found at once, it is there. -/
structure ShowsAt (offset : Nat) (c : Char) (misplaced : Misplaced) : Prop where
  inside : misplaced.offset ≤ offset
  precise : ∀ culprit, misplaced.cause.culprit? = some culprit →
    misplaced.offset = offset ∧ culprit = c

/-- The mistake is none that is found at once. -/
structure Deferred (offset : Nat) (misplaced : Misplaced) : Prop where
  inside : misplaced.offset ≤ offset
  noCulprit : misplaced.cause.culprit? = none

theorem Deferred.showsAt {offset : Nat} {misplaced : Misplaced}
    (deferred : misplaced.Deferred offset) (c : Char) : misplaced.ShowsAt offset c := by
  refine ⟨deferred.inside, ?_⟩
  intro culprit isCulprit
  rw [deferred.noCulprit] at isCulprit
  cases isCulprit

theorem showsAt_invalidCharacter (offset : Nat) (c : Char) :
    ShowsAt offset c ⟨.invalidCharacter c, offset⟩ := by
  refine ⟨Nat.le_refl offset, ?_⟩
  intro culprit isCulprit
  exact ⟨rfl, (Option.some.inj isCulprit).symm⟩

theorem showsAt_duplicateMarker (offset : Nat) (name : String) :
    ShowsAt offset ';' ⟨.duplicateMarker name, offset⟩ := by
  refine ⟨Nat.le_refl offset, ?_⟩
  intro culprit isCulprit
  exact ⟨rfl, (Option.some.inj isCulprit).symm⟩

/-- The mistake shows at a character of the text, whatever follows there. -/
def ShowsIn (offset : Nat) (fails : List Char → Prop) (text : List Char)
    (misplaced : Misplaced) : Prop :=
  ∃ before c after, text = before ++ c :: after ∧
    misplaced.ShowsAt (offset + before.length + 1) c ∧ ∀ more, fails (before ++ c :: more)

end Misplaced

/-- A result has a property, or a mistake has one. -/
inductive Reading {α : Type} (holds : α → Prop) (fails : Misplaced → Prop) :
    Except Misplaced α → Prop where
  | ok {result : α} (held : holds result) : Reading holds fails (.ok result)
  | error {misplaced : Misplaced} (failed : fails misplaced) :
      Reading holds fails (.error misplaced)

namespace Reading

variable {α β : Type} {holds : α → Prop} {fails : Misplaced → Prop} {result : Except Misplaced α}

theorem bind (reading : Reading holds fails result) {next : α → Except Misplaced β}
    {holdsNext : β → Prop}
    (onward : ∀ result, holds result → Reading holdsNext fails (next result)) :
    Reading holdsNext fails (result.bind next) := by
  cases reading with
  | ok held => exact onward _ held
  | error failed => exact .error failed

theorem mono (reading : Reading holds fails result) {failsToo : Misplaced → Prop}
    (weaker : ∀ misplaced, fails misplaced → failsToo misplaced) :
    Reading holds failsToo result := by
  cases reading with
  | ok held => exact .ok held
  | error failed => exact .error (weaker _ failed)

theorem of_ok {value : α} (reading : Reading holds fails (.ok value)) : holds value := by
  cases reading with
  | ok held => exact held

theorem of_error {misplaced : Misplaced} (reading : Reading holds fails (.error misplaced)) :
    fails misplaced := by
  cases reading with
  | error failed => exact failed

end Reading

open Misplaced

namespace Scanner

variable {Scan : Type} {step : Scan → Nat → Char → Except Misplaced Scan}
  {steps : Scan → Nat → List Char → Except Misplaced Scan} {scan : Scan} {offset : Nat}
  {Kept : Nat → Scan → Prop}

/-- If every mistake of a step shows at its character, every mistake of a scan shows at one. -/
theorem reading (scanner : Scanner step steps)
    (kept : ∀ scan offset c, Kept offset scan →
      Reading (Kept (offset + 1)) (ShowsAt (offset + 1) c) (step scan (offset + 1) c))
    (held : Kept offset scan) (text : List Char) :
    Reading (Kept (offset + text.length))
      (fun misplaced =>
        misplaced.ShowsIn offset (fun text => steps scan offset text = .error misplaced) text)
      (steps scan offset text) := by
  induction text generalizing scan offset with
  | nil =>
      rw [scanner.nil]
      exact .ok held
  | cons c rest ih =>
      have first := kept scan offset c held
      rw [scanner.cons]
      cases reads : step scan (offset + 1) c with
      | error misplaced =>
          rw [reads] at first
          -- The scan stops here, so it has not seen what follows.
          refine .error ⟨[], c, rest, rfl, first.of_error, ?_⟩
          intro more
          rw [List.nil_append, scanner.cons, reads]
          rfl
      | ok next =>
          rw [reads] at first
          have later := ih first.of_ok
          have longer : offset + 1 + rest.length = offset + (c :: rest).length := by
            simp only [List.length_cons]
            omega
          rw [longer] at later
          apply later.mono
          rintro misplaced ⟨before, culprit, after, rfl, shows, stays⟩
          refine ⟨c :: before, culprit, after, rfl, ?_, ?_⟩
          · have further : offset + 1 + before.length = offset + (c :: before).length := by
              simp only [List.length_cons]
              omega
            rwa [further] at shows
          · intro more
            rw [List.cons_append, scanner.cons_of_ok reads]
            exact stays more

end Scanner

/-- Mistakes of a reader show at a character, whatever follows, or when all has been read. -/
def Diagnoses {α : Type} (reads : List Char → Except Misplaced α) : Prop :=
  ∀ text misplaced, reads text = .error misplaced →
    misplaced.Deferred text.length ∨
      misplaced.ShowsIn 0 (fun text => reads text = .error misplaced) text

theorem Scanner.diagnoses {Scan α : Type} {step : Scan → Nat → Char → Except Misplaced Scan}
    {steps : Scan → Nat → List Char → Except Misplaced Scan} {scan : Scan}
    {Kept : Nat → Scan → Prop} {finish : Scan → Nat → Except Misplaced α}
    (scanner : Scanner step steps)
    (kept : ∀ scan offset c, Kept offset scan →
      Reading (Kept (offset + 1)) (ShowsAt (offset + 1) c) (step scan (offset + 1) c))
    (ends : ∀ scan length, Kept length scan →
      Reading (fun _ => True) (Deferred length) (finish scan length))
    (held : Kept 0 scan) :
    Diagnoses fun text => (steps scan 0 text).bind fun scan => finish scan text.length := by
  intro text misplaced fails
  have scanned := scanner.reading kept held text
  cases reads : steps scan 0 text with
  | error found =>
      right
      simp only [reads] at fails scanned
      cases fails
      rcases scanned.of_error with ⟨before, c, after, same, shows, stays⟩
      refine ⟨before, c, after, same, shows, ?_⟩
      intro more
      simp only [stays more]
      rfl
  | ok last =>
      left
      simp only [reads] at fails scanned
      have keptLast := scanned.of_ok
      rw [Nat.zero_add] at keptLast
      have ended := ends last text.length keptLast
      change finish last text.length = _ at fails
      rw [fails] at ended
      exact ended.of_error

namespace SyntaxError

/-- The error is about a place in the source and quotes a part of it. -/
structure Fits (source : String) (error : SyntaxError) : Prop where
  inside : error.offset ≤ source.length
  quoted : error.excerpt.toList <:+: source.toList

/-- The error is about a character of the source, and stays whatever follows that character. -/
structure Immediate {α : Type} (read : String → Except SyntaxError α) (source : String) (c : Char)
    (error : SyntaxError) : Prop where
  behind : 1 ≤ error.offset
  character : source.toList[error.offset - 1]? = some c
  stays : ∀ text, ∃ later,
    read (String.ofList (source.toList.take error.offset) ++ text) = .error later ∧
      later.cause = error.cause ∧ later.offset = error.offset

theorem excerptAt_infix (source : List Char) (offset : Nat) :
    (excerptAt source offset).toList <:+: source := by
  rw [excerptAt, String.toList_ofList]
  exact (List.drop_suffix _ _).isInfix.trans (List.take_prefix _ _).isInfix

end SyntaxError

namespace Diagnoses

variable {α : Type} {reads : List Char → Except Misplaced α} {source : String}
  {error : SyntaxError}

/-- The reader with the errors that it reports for whole sources. -/
def reporting (reads : List Char → Except Misplaced α) (source : String) : Except SyntaxError α :=
  (reads source.toList).mapError (.ofMisplaced source.toList)

theorem reporting_eq_error (fails : reporting reads source = .error error) :
    ∃ misplaced, reads source.toList = .error misplaced ∧
      error = .ofMisplaced source.toList misplaced := by
  unfold reporting at fails
  cases result : reads source.toList with
  | ok value =>
      rw [result] at fails
      cases fails
  | error misplaced =>
      rw [result] at fails
      cases fails
      exact ⟨misplaced, rfl, rfl⟩

theorem fits (diagnoses : Diagnoses reads) (fails : reporting reads source = .error error) :
    error.Fits source := by
  rcases reporting_eq_error fails with ⟨misplaced, found, rfl⟩
  refine ⟨?_, SyntaxError.excerptAt_infix _ _⟩
  rw [← String.length_toList]
  rcases diagnoses _ _ found with deferred | ⟨before, c, after, same, shows, _⟩
  · exact deferred.inside
  · have inside := shows.inside
    rw [same]
    simp only [SyntaxError.ofMisplaced, List.length_append, List.length_cons]
    omega

theorem immediate (diagnoses : Diagnoses reads) (fails : reporting reads source = .error error)
    {c : Char} (isCulprit : error.cause.culprit? = some c) :
    error.Immediate (reporting reads) source c := by
  rcases reporting_eq_error fails with ⟨misplaced, found, rfl⟩
  rcases diagnoses _ _ found with deferred | ⟨before, culprit, after, same, shows, stays⟩
  · cases deferred.noCulprit.symm.trans isCulprit
  · rcases shows.precise c isCulprit with ⟨place, rfl⟩
    have place : misplaced.offset = before.length + 1 := by omega
    refine ⟨?_, ?_, ?_⟩
    · simp [SyntaxError.ofMisplaced, place]
    · simp [SyntaxError.ofMisplaced, place, same]
    · intro text
      have continued : (String.ofList (source.toList.take misplaced.offset) ++ text).toList =
          before ++ c :: text.toList := by
        rw [place, same, List.take_length_add_append]
        simp
      refine ⟨.ofMisplaced (before ++ c :: text.toList) misplaced, ?_, rfl, rfl⟩
      unfold reporting
      simp only [SyntaxError.ofMisplaced] at continued ⊢
      rw [continued, stays text.toList]
      rfl

end Diagnoses

end Esoterica
