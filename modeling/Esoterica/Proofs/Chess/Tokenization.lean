import Esoterica.Proofs.Chess.Algebraic
import Esoterica.Proofs.Text.Words

/-!
# Reading a game

What reading a game gives, said by looking at its words alone: the tokens that the words denote, or
the first word that is to blame.
-/

namespace Esoterica

namespace Chess

/-- Whether a word ends a game. -/
def endsGame (word : Word) : Bool :=
  word.text == "#".toList || word.text == "1/2".toList

/-- What a source is read as, given its characters and its words. -/
inductive Judged (text : List Char) (words : List Word) : Except SyntaxError (Program Token) → Prop
    where
  | accepted (tokens : List Token) (valid : ∀ word ∈ words, Token.IsWord word.text)
      (ended : words.countP endsGame = 1) (legal : ∀ token ∈ tokens, token.Legal)
      (denoted : tokens.map Token.text = words.map fun word => String.ofList word.text) :
      Judged text words (.ok { tokens := tokens.toArray })
  | invalid (earlier : List Word) (word : Word) (later : List Word)
      (place : words = earlier ++ word :: later)
      (valid : ∀ word ∈ earlier, Token.IsWord word.text) (ended : earlier.countP endsGame ≤ 1)
      (unknown : ¬ Token.IsWord word.text) :
      Judged text words (.error ⟨.invalidMove, word.offset, String.ofList word.text⟩)
  | duplicate (earlier : List Word) (word : Word) (later : List Word)
      (place : words = earlier ++ word :: later)
      (valid : ∀ word ∈ earlier, Token.IsWord word.text) (ended : earlier.countP endsGame = 1)
      (again : endsGame word = true) :
      Judged text words (.error ⟨.duplicateResult, word.offset, String.ofList word.text⟩)
  | missing (valid : ∀ word ∈ words, Token.IsWord word.text)
      (unended : words.countP endsGame = 0) :
      Judged text words
        (.error ⟨.missingResult, text.length, String.ofList (text.drop (text.length - 10))⟩)

/-- Tokens that words denote. -/
def Denoted (words : List Word) (tokens : List Token) : Prop :=
  (∀ token ∈ tokens, token.Legal) ∧ tokens.map Token.render = words.map Word.text

/-- The error names the first of the words to blame, given whether a result came before them. -/
def Blames (hasResult : Bool) (words : List Word) (error : SyntaxError) : Prop :=
  ∃ earlier word later, words = earlier ++ word :: later ∧
    (∀ word ∈ earlier, Token.IsWord word.text) ∧
    hasResult.toNat + earlier.countP endsGame ≤ 1 ∧
    (error = word.error .invalidMove ∧ ¬ Token.IsWord word.text ∨
      error = word.error .duplicateResult ∧ endsGame word = true ∧
        hasResult.toNat + earlier.countP endsGame = 1)

variable {hasResult : Bool} {words rest : List Word} {word : Word} {token : Token}
  {tokens : List Token} {error : SyntaxError}

theorem isResult_eq (denoted : Token.ofWord? word.text = some token) :
    token.isResult = endsGame word := by
  cases ends : endsGame word with
  | true =>
      rcases Bool.or_eq_true_iff.mp ends with same | same
      · rw [eq_of_beq same] at denoted
        cases denoted
        rfl
      · rw [eq_of_beq same] at denoted
        cases denoted
        rfl
  | false =>
      have written := (Token.ofWord?_eq_some_iff.mp denoted).2
      cases token with
      | move | castling => rfl
      | result outcome =>
          rw [endsGame, ← written] at ends
          cases outcome <;> cases ends

theorem isWord_of_endsGame (ends : endsGame word = true) : Token.IsWord word.text := by
  rcases Bool.or_eq_true_iff.mp ends with same | same
  · rw [eq_of_beq same]
    exact .checkmate
  · rw [eq_of_beq same]
    exact .draw

theorem denoted_cons_iff :
    Denoted (word :: rest) tokens ↔
      ∃ token more, tokens = token :: more ∧ Token.ofWord? word.text = some token ∧
        Denoted rest more := by
  simp only [Token.ofWord?_eq_some_iff, Denoted]
  cases tokens with
  | nil => simp
  | cons token more => grind

theorem Denoted.isWord (denoted : Denoted words tokens) :
    ∀ word ∈ words, Token.IsWord word.text := by
  induction words generalizing tokens with
  | nil => simp
  | cons word rest ih =>
      rcases denoted_cons_iff.mp denoted with ⟨token, more, rfl, reads, denoted⟩
      exact List.forall_mem_cons.mpr ⟨Token.isWord_iff.mpr ⟨token, reads⟩, ih denoted⟩

theorem exists_denoted (valid : ∀ word ∈ words, Token.IsWord word.text) :
    ∃ tokens, Denoted words tokens := by
  induction words with
  | nil => exact ⟨[], by simp [Denoted]⟩
  | cons word rest ih =>
      rcases List.forall_mem_cons.mp valid with ⟨isWord, valid⟩
      rcases Token.isWord_iff.mp isWord with ⟨token, reads⟩
      rcases ih valid with ⟨more, denoted⟩
      exact ⟨token :: more, denoted_cons_iff.mpr ⟨token, more, rfl, reads, denoted⟩⟩

theorem not_blames_nil : ¬ Blames hasResult [] error := by
  rintro ⟨earlier, word, later, place, _⟩
  simp at place

/-- Behind a word that is not a second result, whether the game has ended counts its results. -/
theorem count_cons (earlier : List Word) (single : hasResult = false ∨ endsGame word = false) :
    hasResult.toNat + (word :: earlier).countP endsGame =
      (hasResult || endsGame word).toNat + earlier.countP endsGame := by
  rw [List.countP_cons]
  cases ends : endsGame word with
  | false => simp
  | true =>
      have noneYet : hasResult = false := by simpa [ends] using single
      simp only [noneYet, if_true, Bool.false_or, Bool.toNat_false, Bool.toNat_true]
      omega

theorem blames_cons_iff :
    Blames hasResult (word :: rest) error ↔
      error = word.error .invalidMove ∧ ¬ Token.IsWord word.text ∨
      error = word.error .duplicateResult ∧ endsGame word = true ∧ hasResult = true ∨
      Token.IsWord word.text ∧ (hasResult = false ∨ endsGame word = false) ∧
        Blames (hasResult || endsGame word) rest error := by
  constructor
  · rintro ⟨earlier, blamed, later, place, valid, ended, cause⟩
    cases earlier with
    | nil =>
        cases place
        rcases cause with invalid | ⟨same, again, ended⟩
        · exact .inl invalid
        · exact .inr (.inl ⟨same, again, by simpa using ended⟩)
    | cons first earlier =>
        cases place
        rcases List.forall_mem_cons.mp valid with ⟨isWord, valid⟩
        have single : hasResult = false ∨ endsGame word = false := by
          cases hasResult with
          | false => exact .inl rfl
          | true =>
              right
              apply Bool.eq_false_iff.mpr
              intro ends
              rw [List.countP_cons, if_pos ends, Bool.toNat_true] at ended
              omega
        rw [count_cons earlier single] at ended cause
        exact .inr (.inr ⟨isWord, single, earlier, blamed, later, rfl, valid, ended, cause⟩)
  · rintro (invalid | ⟨same, again, ended⟩ | ⟨isWord, single, behind⟩)
    · exact ⟨[], word, rest, rfl, by simp, by cases hasResult <;> decide, .inl invalid⟩
    · exact ⟨[], word, rest, rfl, by simp, by simp [ended], .inr ⟨same, again, by simp [ended]⟩⟩
    · rcases behind with ⟨earlier, blamed, later, rfl, valid, ended, cause⟩
      rw [← count_cons earlier single] at ended cause
      exact ⟨word :: earlier, blamed, later, rfl, List.forall_mem_cons.mpr ⟨isWord, valid⟩, ended,
        cause⟩

/-- What a word does to the words behind it. -/
theorem readWords_cons (hasResult : Bool) (word : Word) (rest : List Word) :
    (¬ Token.IsWord word.text ∧
      readWords hasResult (word :: rest) = .error (word.error .invalidMove)) ∨
    (∃ token, Token.ofWord? word.text = some token ∧ endsGame word = true ∧ hasResult = true ∧
      readWords hasResult (word :: rest) = .error (word.error .duplicateResult)) ∨
    ∃ token, Token.ofWord? word.text = some token ∧
      (hasResult = false ∨ endsGame word = false) ∧
      readWords hasResult (word :: rest) =
        (readWords (hasResult || endsGame word) rest).map fun (tokens, found) =>
          (token :: tokens, found) := by
  rw [readWords]
  cases reads : Token.ofWord? word.text with
  | none =>
      left
      refine ⟨?_, rfl⟩
      rw [Token.isWord_iff]
      simp [reads]
  | some token =>
      right
      simp only [isResult_eq reads]
      split
      case isTrue again =>
        rcases Bool.and_eq_true_iff.mp again with ⟨ends, ended⟩
        exact .inl ⟨token, rfl, ends, ended, rfl⟩
      case isFalse single =>
        refine .inr ⟨token, rfl, ?_, ?_⟩
        · cases hasResult <;> simp_all
        · cases readWords (hasResult || endsGame word) rest <;> rfl

theorem readWords_eq_error_iff :
    readWords hasResult words = .error error ↔ Blames hasResult words error := by
  induction words generalizing hasResult with
  | nil => simp [readWords, not_blames_nil]
  | cons word rest ih =>
      rw [blames_cons_iff, ← ih]
      rcases readWords_cons hasResult word rest with
        ⟨unknown, step⟩ | ⟨token, reads, ends, ended, step⟩ | ⟨token, reads, single, step⟩
      · have unended := mt isWord_of_endsGame unknown
        grind
      · have isWord := Token.isWord_iff.mpr ⟨token, reads⟩
        grind
      · have isWord := Token.isWord_iff.mpr ⟨token, reads⟩
        rw [step]
        cases readWords (hasResult || endsGame word) rest <;> grind [Except.map]

theorem readWords_eq_ok_iff {found : Bool} :
    readWords hasResult words = .ok (tokens, found) ↔
      Denoted words tokens ∧ hasResult.toNat + words.countP endsGame = found.toNat := by
  induction words generalizing hasResult tokens with
  | nil =>
      cases tokens with
      | nil => cases hasResult <;> cases found <;> simp [readWords, Denoted]
      | cons token more => simp [readWords, Denoted]
  | cons word rest ih =>
      rw [denoted_cons_iff]
      rcases readWords_cons hasResult word rest with
        ⟨unknown, step⟩ | ⟨token, reads, ends, ended, step⟩ | ⟨token, reads, single, step⟩
      · rw [Token.isWord_iff] at unknown
        grind
      · have few := Bool.toNat_le found
        simp only [ended, List.countP_cons, ends, if_pos, Bool.toNat_true]
        grind
      · rw [step, count_cons rest single]
        constructor
        · intro read
          cases behind : readWords (hasResult || endsGame word) rest with
          | error => simp [behind, Except.map] at read
          | ok result =>
              rw [behind] at read
              cases read
              rcases ih.mp behind with ⟨denoted, counted⟩
              exact ⟨⟨token, result.1, rfl, reads, denoted⟩, counted⟩
        · rintro ⟨⟨other, more, rfl, readsOther, denoted⟩, counted⟩
          cases Option.some.inj (reads.symm.trans readsOther)
          rw [ih.mpr ⟨denoted, counted⟩]
          rfl

theorem ofMisplaced_end (text : List Char) :
    SyntaxError.ofMisplaced text ⟨.missingResult, text.length⟩ =
      ⟨.missingResult, text.length, String.ofList (text.drop (text.length - 10))⟩ := by
  have whole : text.take (text.length + 10) = text := List.take_of_length_le (by omega)
  simp only [SyntaxError.ofMisplaced, SyntaxError.excerptAt, SyntaxError.excerptRadius, whole]

theorem denoted_iff_text :
    Denoted words tokens ↔ (∀ token ∈ tokens, token.Legal) ∧
      tokens.map Token.text = words.map fun word => String.ofList word.text := by
  have texts : tokens.map Token.text = (tokens.map Token.render).map String.ofList := by
    simp [Token.text]
  have written : (words.map fun word => String.ofList word.text) =
      (words.map Word.text).map String.ofList := by
    simp
  rw [Denoted, texts, written, List.map_inj_right (fun _ _ => String.ofList_inj.mp)]

theorem read_of_ended {source : String} {tokens : List Token}
    (reads : readWords false (Word.split 1 source.toList) = .ok (tokens, true)) :
    read source = .ok { tokens := tokens.toArray } := by
  simp only [read, reads]
  rfl

theorem read_of_unended {source : String} {tokens : List Token}
    (reads : readWords false (Word.split 1 source.toList) = .ok (tokens, false)) :
    read source = .error ⟨.missingResult, source.toList.length,
      String.ofList (source.toList.drop (source.toList.length - 10))⟩ := by
  rw [← ofMisplaced_end]
  simp only [read, reads]
  rfl

theorem read_of_blames {source : String} {error : SyntaxError}
    (blames : Blames false (Word.split 1 source.toList) error) : read source = .error error := by
  simp only [read, readWords_eq_error_iff.mpr blames]
  rfl

theorem judged_read (source : String) :
    Judged source.toList (Word.split 1 source.toList) (read source) := by
  cases reads : readWords false (Word.split 1 source.toList) with
  | error error =>
      have blames := readWords_eq_error_iff.mp reads
      rw [read_of_blames blames]
      rcases blames with ⟨earlier, word, later, place, valid, ended, cause⟩
      rw [Bool.toNat_false, Nat.zero_add] at ended cause
      rcases cause with ⟨rfl, unknown⟩ | ⟨rfl, again, once⟩
      · exact .invalid earlier word later place valid ended unknown
      · exact .duplicate earlier word later place valid once again
  | ok result =>
      rcases result with ⟨tokens, found⟩
      rcases readWords_eq_ok_iff.mp reads with ⟨denoted, counted⟩
      rw [Bool.toNat_false, Nat.zero_add] at counted
      cases found with
      | true =>
          rw [read_of_ended reads]
          rcases denoted_iff_text.mp denoted with ⟨legal, texts⟩
          exact .accepted tokens denoted.isWord counted legal texts
      | false =>
          rw [read_of_unended reads]
          exact .missing denoted.isWord counted

theorem Judged.read_eq {source : String} {result : Except SyntaxError (Program Token)}
    (judged : Judged source.toList (Word.split 1 source.toList) result) : read source = result := by
  cases judged with
  | accepted tokens valid ended legal denoted =>
      apply read_of_ended
      apply readWords_eq_ok_iff.mpr
      exact ⟨denoted_iff_text.mpr ⟨legal, denoted⟩, by simpa using ended⟩
  | invalid earlier word later place valid ended unknown =>
      apply read_of_blames
      exact ⟨earlier, word, later, place, valid, by simpa using ended, .inl ⟨rfl, unknown⟩⟩
  | duplicate earlier word later place valid ended again =>
      apply read_of_blames
      refine ⟨earlier, word, later, place, valid, ?_, .inr ⟨rfl, again, by simpa using ended⟩⟩
      rw [Bool.toNat_false]
      omega
  | missing valid unended =>
      rcases exists_denoted valid with ⟨tokens, denoted⟩
      apply read_of_unended
      apply readWords_eq_ok_iff.mpr
      exact ⟨denoted, by simpa using unended⟩

/-- Reading a game goes by its words, which are the runs of its text in their order. -/
theorem reading_exact (source : String) :
    (∀ word, word ∈ Word.split 1 source.toList ↔ word.RunOf 1 source.toList) ∧
    (Word.split 1 source.toList).Pairwise (·.offset < ·.offset) ∧
    ∀ result, read source = result ↔ Judged source.toList (Word.split 1 source.toList) result := by
  refine ⟨fun word => Word.mem_split_iff, Word.pairwise_split 1 _, ?_⟩
  intro result
  constructor
  · rintro rfl
    exact judged_read source
  · intro judged
    exact judged.read_eq

end Chess

end Esoterica
