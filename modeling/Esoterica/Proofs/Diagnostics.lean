import Esoterica.Proofs.Chess.Tokenization
import Esoterica.Proofs.Script.Mistakes
import Esoterica.Proofs.ShortO.Mistakes

/-!
# Errors are about their sources

Every error that a source is refused with names a place in it and quotes a part of it. An error that
is found at once is about the character at its place, and nothing behind that can make up for it.
-/

namespace Esoterica

theorem Word.RunOf.fits {source : String} {word : Word} (run : word.RunOf 1 source.toList)
    (cause : SyntaxCause) : (word.error cause).Fits source := by
  rcases run with ⟨nonempty, _, before, after, same, place, _, _⟩
  refine ⟨?_, ?_⟩
  · have visible : 0 < word.text.length := List.length_pos_iff.mpr nonempty
    rw [← String.length_toList, same]
    simp only [Word.error, List.length_append]
    omega
  · rw [same]
    simp only [Word.error, String.toList_ofList]
    exact ⟨before, after, rfl⟩

theorem Chess.fits_of_read {source : String} {error : SyntaxError}
    (fails : Chess.read source = .error error) : error.Fits source := by
  have blamed {word : Word} {earlier later : List Word} (cause : SyntaxCause)
      (place : Word.split 1 source.toList = earlier ++ word :: later) :
      (word.error cause).Fits source := by
    apply Word.RunOf.fits
    apply Word.mem_split_iff.mp
    simp [place]
  have judged := Chess.judged_read source
  rw [fails] at judged
  cases judged with
  | invalid earlier word later place => exact blamed .invalidMove place
  | duplicate earlier word later place => exact blamed .duplicateResult place
  | missing =>
      refine ⟨?_, ?_⟩
      · exact Nat.le_of_eq String.length_toList
      · rw [String.toList_ofList]
        exact (List.drop_suffix _ _).isInfix

/-- Why a source was refused, and at which place. -/
def refusal? {α : Type} : Except SyntaxError α → Option (SyntaxCause × Nat)
  | .ok _ => none
  | .error error => some (error.cause, error.offset)

theorem exists_of_refusal? {α : Type} {result : Except SyntaxError α} {cause : SyntaxCause}
    {offset : Nat} (refused : refusal? result = some (cause, offset)) :
    ∃ error, result = .error error ∧ error.cause = cause ∧ error.offset = offset := by
  cases result with
  | ok value => cases refused
  | error error =>
      cases refused
      exact ⟨error, rfl, rfl, rfl⟩

/--
Every error of the three readers that report places is about a place in the source and quotes a part
of it. A character that cannot stand where it does is the one at the place, and so is the end of a
marker that was set before; whatever is put behind that character, the error stays.
-/
theorem diagnostics_exact_local (registry : ShortO.Registry) (source : String) :
    (∀ error, ShortO.read registry source = .error error → error.Fits source) ∧
    (∀ error, Chess.read source = .error error → error.Fits source) ∧
    (∀ error, Script.read source = .error error → error.Fits source) ∧
    (∀ error c, ShortO.read registry source = .error error →
      error.cause = .invalidCharacter c → error.Immediate (ShortO.read registry) source c) ∧
    (∀ error c, Script.read source = .error error →
      error.cause = .invalidCharacter c → error.Immediate Script.read source c) ∧
    ∀ error name, ShortO.read registry source = .error error →
      error.cause = .duplicateMarker name → error.Immediate (ShortO.read registry) source ';' := by
  have shortO := ShortO.Scan.diagnoses_readSource registry
  have script := Script.diagnoses_readSource
  rw [Script.read_eq_reporting]
  refine ⟨?_, ?_, ?_, ?_, ?_, ?_⟩
  · intro error fails
    exact shortO.fits fails
  · intro error fails
    exact Chess.fits_of_read fails
  · intro error fails
    exact script.fits fails
  · intro error c fails isInvalid
    exact shortO.immediate fails (by rw [isInvalid]; rfl)
  · intro error c fails isInvalid
    exact script.immediate fails (by rw [isInvalid]; rfl)
  · intro error name fails isDuplicate
    exact shortO.immediate fails (by rw [isDuplicate]; rfl)

/-- A marker that is set twice, a character that scripts do not know, and no square of the board. -/
theorem diagnostics_exact_local_of_mistakes :
    (∃ error, ShortO.read .standard "#a;#a;$" = .error error ∧
      error.cause = .duplicateMarker "a" ∧ error.offset = 6 ∧
      error.Immediate (ShortO.read .standard) "#a;#a;$" ';') ∧
    (∃ error, Script.read "do ?!" = .error error ∧
      error.cause = .invalidCharacter '?' ∧ error.offset = 4 ∧
      error.Immediate Script.read "do ?!" '?') ∧
    ∃ error, Chess.read "0-0 e9" = .error error ∧ error.cause = .invalidMove ∧
      error.offset = 5 ∧ error.Fits "0-0 e9" := by
  have marker : refusal? (ShortO.read .standard "#a;#a;$") = some (.duplicateMarker "a", 6) := by
    decide +kernel
  have sign : refusal? (Script.read "do ?!") = some (.invalidCharacter '?', 4) := by
    decide +kernel
  have move : refusal? (Chess.read "0-0 e9") = some (.invalidMove, 5) := by decide +kernel
  rcases exists_of_refusal? marker with ⟨markerError, markerFails, isMarker, markerPlace⟩
  rcases exists_of_refusal? sign with ⟨signError, signFails, isSign, signPlace⟩
  rcases exists_of_refusal? move with ⟨moveError, moveFails, isMove, movePlace⟩
  have inMarkers := diagnostics_exact_local .standard "#a;#a;$"
  have inSigns := diagnostics_exact_local .standard "do ?!"
  have inMoves := diagnostics_exact_local .standard "0-0 e9"
  refine ⟨⟨markerError, markerFails, isMarker, markerPlace, ?_⟩,
    ⟨signError, signFails, isSign, signPlace, ?_⟩, moveError, moveFails, isMove, movePlace, ?_⟩
  · exact inMarkers.2.2.2.2.2 markerError "a" markerFails isMarker
  · exact inSigns.2.2.2.2.1 signError '?' signFails isSign
  · exact inMoves.2.1 moveError moveFails

end Esoterica
