import Esoterica.Proofs.Script.Printing
import Esoterica.Proofs.Script.Resolving
import Esoterica.Proofs.Text.Mistakes

/-!
# Mistakes in scripts

Lexemes have the offsets of their first characters. A mistake that has to do with names is reported
at a lexeme, a number that is too large where it starts, and every other one at the character where
it is found. What a step does is gone through here once, for its mistakes and for all that steps
keep.
-/

namespace Esoterica

namespace Script

open Misplaced

/-- The offset of what is being read. -/
def Mode.start? : Mode → Option Nat
  | .name _ start _ | .number start _ | .string start _ | .stringEscape start _ | .slash start
  | .dash start => some start
  | .between | .comment => none

/-- What starts at a character and may go on behind it. -/
inductive Mode.Begun (offset : Nat) (c : Char) : Mode → Prop where
  | key (nameChar : isNameChar c = true) : Begun offset c (.name .key offset c.toString)
  | name {kind : NameKind} (signed : kind ≠ .key) : Begun offset c (.name kind offset "")
  | number : Begun offset c (.number offset 0)
  | string : Begun offset c (.string offset "")
  | slash : Begun offset c (.slash offset)
  | dash : Begun offset c (.dash offset)

/-- How a character adds to what is being read. -/
inductive Mode.Grown (c : Char) : Mode → Mode → Prop where
  | name {kind : NameKind} {start : Nat} {read : String} (nameChar : isNameChar c = true) :
      Grown c (.name kind start read) (.name kind start (read.push c))
  | number {start value digit : Nat} (bounded : 16 * value + digit ≤ greatestNumber) :
      Grown c (.number start value) (.number start (16 * value + digit))
  | string {start : Nat} {read more : String} : Grown c (.string start read) (.string start more)
  | escape {start : Nat} {read : String} :
      Grown c (.string start read) (.stringEscape start read)
  | escaped {start : Nat} {read more : String} :
      Grown c (.stringEscape start read) (.string start more)

/-- The lexeme that is complete when what was being read ends. -/
inductive Mode.Ended : Mode → Located Lexeme → Prop where
  | name {kind : NameKind} {start : Nat} {read : String} :
      Ended (.name kind start read) ⟨start, kind.lexeme read⟩
  | number {start value : Nat} :
      Ended (.number start value) ⟨start, .plain (.value (.number value))⟩
  | string {start : Nat} {read : String} :
      Ended (.string start read) ⟨start, .plain (.value (.text read))⟩
  | slash {start : Nat} : Ended (.slash start) ⟨start, .plain (.operator '/')⟩
  | dash {start : Nat} : Ended (.dash start) ⟨start, .plain (.operator '-')⟩
  | arrow {start : Nat} : Ended (.dash start) ⟨start, .plain .arrow⟩

/-- The lexemes of one character that nothing can be added to. -/
inductive Lexeme.IsSign (c : Char) : Lexeme → Prop where
  | openBracket (isOpen : c = '[' ∨ c = '(') : IsSign c (.plain (.openBracket c))
  | closeBracket (isClose : c = ']' ∨ c = ')') : IsSign c (.plain (.closeBracket c))
  | operator (isOperator : isOperator c = true) : IsSign c (.plain (.operator c))

namespace Scan

/-- Whatever a step at a character can do keeps properties of lexemes and modes. -/
structure KeptAt (offset : Nat) (c : Char) (lexemes : Located Lexeme → Prop) (modes : Mode → Prop)
    (fails : Misplaced → Prop) : Prop where
  between : modes .between
  comment : modes .comment
  begun : ∀ mode, mode.Begun offset c → modes mode
  grown : ∀ before after, before.Grown c after → modes before → modes after
  ended : ∀ mode lexeme, mode.Ended lexeme → modes mode → lexemes lexeme
  sign : ∀ lexeme, lexeme.IsSign c → lexemes ⟨offset, lexeme⟩
  invalid : fails ⟨.invalidCharacter c, offset⟩
  unterminated : fails ⟨.unterminatedString, offset⟩
  tooLarge : ∀ start value, modes (.number start value) → fails ⟨.numberTooLarge, start⟩

/-- All lexemes that were read and the mode have these properties. -/
structure Holding (lexemes : Located Lexeme → Prop) (modes : Mode → Prop) (scan : Scan) : Prop where
  lines : ∀ line ∈ scan.lines, ∀ located ∈ line, lexemes located
  line : ∀ located ∈ scan.line, lexemes located
  mode : modes scan.mode

namespace Holding

variable {lexemes : Located Lexeme → Prop} {modes : Mode → Prop} {fails : Misplaced → Prop}
  {scan : Scan} {offset : Nat} {c : Char}

theorem withMode (holding : scan.Holding lexemes modes) {mode : Mode} (held : modes mode) :
    Holding lexemes modes { scan with mode } :=
  ⟨holding.lines, holding.line, held⟩

theorem push (holding : scan.Holding lexemes modes) (between : modes .between) {start : Nat}
    {lexeme : Lexeme} (held : lexemes ⟨start, lexeme⟩) :
    (scan.push start lexeme).Holding lexemes modes := by
  refine ⟨holding.lines, ?_, between⟩
  intro located mem
  rcases Array.mem_push.mp mem with mem | rfl
  · exact holding.line located mem
  · exact held

theorem endLine (holding : scan.Holding lexemes modes) (between : modes .between) :
    scan.endLine.Holding lexemes modes := by
  refine ⟨?_, by simp [Scan.endLine], between⟩
  intro line mem
  rcases Array.mem_push.mp mem with mem | rfl
  · exact holding.lines line mem
  · intro located mem
    exact holding.line located (Array.mem_toList_iff.mp mem)

/-- Only a string cannot end everywhere. -/
theorem close (holding : scan.Holding lexemes modes) (between : modes .between)
    (ended : ∀ mode lexeme, mode.Ended lexeme → modes mode → lexemes lexeme) (offset : Nat) :
    Reading (Holding lexemes modes) (· = ⟨.unterminatedString, offset⟩) (scan.close offset) := by
  have inMode := holding.mode
  unfold Scan.close
  cases mode : scan.mode with
  | between | comment => exact .ok (holding.withMode between)
  | name kind start read =>
      rw [mode] at inMode
      exact .ok (holding.push between (ended _ _ .name inMode))
  | number start value =>
      rw [mode] at inMode
      exact .ok (holding.push between (ended _ _ .number inMode))
  | slash start =>
      rw [mode] at inMode
      exact .ok (holding.push between (ended _ _ .slash inMode))
  | dash start =>
      rw [mode] at inMode
      exact .ok (holding.push between (ended _ _ .dash inMode))
  | string start read | stringEscape start read => exact .error rfl

theorem stepBetween (kept : KeptAt offset c lexemes modes fails)
    (holding : scan.Holding lexemes modes) :
    Reading (Holding lexemes modes) fails (scan.stepBetween offset c) := by
  unfold Scan.stepBetween
  split
  · exact .ok (holding.endLine kept.between)
  split
  · exact .ok (holding.withMode kept.between)
  split
  next nameChar => exact .ok (holding.withMode (kept.begun _ (.key nameChar)))
  split
  · exact .ok (holding.withMode (kept.begun _ .string))
  · exact .ok (holding.withMode (kept.begun _ .number))
  · exact .ok (holding.withMode (kept.begun _ (.name (by simp))))
  · exact .ok (holding.withMode (kept.begun _ (.name (by simp))))
  · exact .ok (holding.withMode (kept.begun _ (.name (by simp))))
  · exact .ok (holding.withMode (kept.begun _ .slash))
  · exact .ok (holding.withMode (kept.begun _ .dash))
  · exact .ok (holding.push kept.between (kept.sign _ (.openBracket (by simp))))
  · exact .ok (holding.push kept.between (kept.sign _ (.openBracket (by simp))))
  · exact .ok (holding.push kept.between (kept.sign _ (.closeBracket (by simp))))
  · exact .ok (holding.push kept.between (kept.sign _ (.closeBracket (by simp))))
  · split
    next isOperator => exact .ok (holding.push kept.between (kept.sign _ (.operator isOperator)))
    next => exact .error kept.invalid

theorem closeAndStep (kept : KeptAt offset c lexemes modes fails)
    (holding : scan.Holding lexemes modes) :
    Reading (Holding lexemes modes) fails (scan.closeAndStep offset c) := by
  have closes : Reading (Holding lexemes modes) fails (scan.close offset) := by
    apply (holding.close kept.between kept.ended offset).mono
    rintro misplaced rfl
    exact kept.unterminated
  exact closes.bind fun _ closed => closed.stepBetween kept

theorem step (kept : KeptAt offset c lexemes modes fails) (holding : scan.Holding lexemes modes) :
    Reading (Holding lexemes modes) fails (scan.step offset c) := by
  have inMode := holding.mode
  unfold Scan.step
  cases mode : scan.mode with
  | between => exact holding.stepBetween kept
  | name kind start read =>
      rw [mode] at inMode
      simp only
      split
      next nameChar => exact .ok (holding.withMode (kept.grown _ _ (.name nameChar) inMode))
      next => exact holding.closeAndStep kept
  | number start value =>
      rw [mode] at inMode
      simp only
      split
      · split
        next => exact .error (kept.tooLarge start value inMode)
        next small =>
          have bounded := Nat.not_lt.mp small
          exact .ok (holding.withMode (kept.grown _ _ (.number bounded) inMode))
      · exact holding.closeAndStep kept
  | string start read =>
      rw [mode] at inMode
      simp only
      split
      · exact .ok (holding.push kept.between (kept.ended _ _ .string inMode))
      · exact .ok (holding.withMode (kept.grown _ _ .escape inMode))
      · exact .error kept.unterminated
      · exact .ok (holding.withMode (kept.grown _ _ .string inMode))
  | stringEscape start read =>
      rw [mode] at inMode
      simp only
      split
      · exact .ok (holding.withMode (kept.grown _ _ .escaped inMode))
      · exact .error kept.unterminated
      · exact .ok (holding.withMode (kept.grown _ _ .escaped inMode))
  | slash start =>
      rw [mode] at inMode
      simp only
      split
      · exact .ok (holding.withMode kept.comment)
      · exact (holding.push kept.between (kept.ended _ _ .slash inMode)).stepBetween kept
  | dash start =>
      rw [mode] at inMode
      simp only
      split
      · exact .ok (holding.push kept.between (kept.ended _ _ .arrow inMode))
      · exact (holding.push kept.between (kept.ended _ _ .dash inMode)).stepBetween kept
  | comment =>
      simp only
      split
      · exact .ok (holding.endLine kept.between)
      · exact .ok holding

end Holding

/-- Lexemes, and what is being read, start up to an offset. -/
def Within (offset : Nat) : Scan → Prop :=
  Holding (·.offset ≤ offset) fun mode => ∀ start ∈ mode.start?, start ≤ offset

theorem Within.succ {scan : Scan} {offset : Nat} (within : scan.Within offset) :
    scan.Within (offset + 1) := by
  refine ⟨?_, ?_, ?_⟩
  · intro line inLines located mem
    exact Nat.le_succ_of_le (within.lines line inLines located mem)
  · intro located mem
    exact Nat.le_succ_of_le (within.line located mem)
  · intro start mem
    exact Nat.le_succ_of_le (within.mode start mem)

theorem ended_within {offset : Nat} {mode : Mode} {lexeme : Located Lexeme}
    (ended : mode.Ended lexeme) (within : ∀ start ∈ mode.start?, start ≤ offset) :
    lexeme.offset ≤ offset := by
  cases ended <;> exact within _ rfl

theorem keptAt_within (offset : Nat) (c : Char) :
    KeptAt offset c (·.offset ≤ offset) (fun mode => ∀ start ∈ mode.start?, start ≤ offset)
      (ShowsAt offset c) where
  between := by simp [Mode.start?]
  comment := by simp [Mode.start?]
  begun mode begun := by cases begun <;> simp [Mode.start?]
  grown before after grown within := by cases grown <;> exact within
  ended _ _ ended within := ended_within ended within
  sign _ _ := Nat.le_refl offset
  invalid := showsAt_invalidCharacter offset c
  unterminated := Deferred.showsAt ⟨Nat.le_refl offset, rfl⟩ c
  tooLarge start _ within := Deferred.showsAt ⟨within start rfl, rfl⟩ c

end Scan

/-! ### Names -/

variable {names : Names} {offset bound : Nat} {name : String}

def UpTo (bound : Nat) (line : List (Located Lexeme)) : Prop :=
  ∀ located ∈ line, located.offset ≤ bound

theorem resolveConstant_reading {rest : List (Located Lexeme)} (inside : offset ≤ bound)
    (upTo : UpTo bound rest) :
    Reading (fun _ => True) (Deferred bound) (resolveConstant names offset name rest) := by
  fun_induction resolveConstant names offset name rest with
  | case1 => exact .error ⟨inside, rfl⟩
  | case2 => exact .error ⟨inside, rfl⟩
  | case3 => exact .ok trivial
  | case4 _ _ _ value rest _ inner _ ih =>
      have resolves := ih (upTo value (by simp)) fun located mem => upTo located (by simp [mem])
      exact resolves.bind fun _ _ => .ok trivial
  | case5 _ _ _ value => exact .error ⟨upTo value (by simp), rfl⟩
  | case6 => exact .ok trivial
  | case7 => exact .error ⟨inside, rfl⟩

theorem resolveLine_reading {line : List (Located Lexeme)} {skip : Nat} (upTo : UpTo bound line) :
    Reading (fun _ => True) (Deferred bound) (resolveLine names skip line) := by
  induction line generalizing names skip with
  | nil => exact .ok trivial
  | cons located rest ih =>
      rcases located with ⟨offset, lexeme⟩
      have inside : offset ≤ bound := upTo ⟨offset, lexeme⟩ (by simp)
      have upToRest : UpTo bound rest := fun located mem => upTo located (by simp [mem])
      cases skip with
      | succ skip => exact ih upToRest
      | zero =>
          rcases lexeme with item | name | name
          · exact (ih upToRest).bind fun _ _ => .ok trivial
          · exact (ih upToRest).bind fun _ _ => .ok trivial
          · apply (resolveConstant_reading inside upToRest).bind
            intro resolved _
            exact (ih upToRest).bind fun _ _ => .ok trivial

theorem resolveLines_reading {lines : List (List (Located Lexeme))}
    (upTo : ∀ line ∈ lines, UpTo bound line) :
    Reading (fun _ => True) (Deferred bound) (resolveLines names lines) := by
  induction lines generalizing names with
  | nil => exact .ok trivial
  | cons line rest ih =>
      apply (resolveLine_reading (upTo line (by simp))).bind
      intro command _
      exact (ih fun line mem => upTo line (by simp [mem])).bind fun _ _ => .ok trivial

/-! ### Scripts -/

/-- What remains to be done when all characters have been read. -/
def Scan.finish (scan : Scan) (length : Nat) : Except Misplaced Script :=
  (scan.close length).bind fun closed =>
    (resolveLines {} (closed.endLine.lines.toList.filter (!·.isEmpty))).bind
      fun (commands, names) => .ok { commands, variableNames := names.slots }

def readSource (source : List Char) : Except Misplaced Script :=
  (Scan.steps {} 0 source).bind fun scan => scan.finish source.length

theorem read_eq_reporting : read = Diagnoses.reporting readSource := by
  funext source
  simp only [read, Diagnoses.reporting, readSource, readLines]
  cases Scan.steps {} 0 source.toList with
  | error misplaced => rfl
  | ok scan =>
      change (Except.bind (Except.bind (scan.close _) _) _).mapError _ = (scan.finish _).mapError _
      unfold Scan.finish
      cases scan.close source.toList.length with
      | error misplaced => rfl
      | ok closed => rfl

theorem diagnoses_readSource : Diagnoses readSource := by
  have fresh : Scan.Within 0 {} := ⟨by simp, by simp, by simp [Mode.start?]⟩
  have step (scan : Scan) (offset : Nat) (c : Char) (within : scan.Within offset) :
      Reading (Scan.Within (offset + 1)) (ShowsAt (offset + 1) c) (scan.step (offset + 1) c) :=
    within.succ.step (Scan.keptAt_within (offset + 1) c)
  have finish (scan : Scan) (length : Nat) (within : scan.Within length) :
      Reading (fun _ => True) (Deferred length) (scan.finish length) := by
    have between : ∀ start ∈ Mode.between.start?, start ≤ length := by simp [Mode.start?]
    have closes : Reading (Scan.Within length) (Deferred length) (scan.close length) := by
      apply (within.close between (fun _ _ => Scan.ended_within) length).mono
      rintro misplaced rfl
      exact ⟨Nat.le_refl length, rfl⟩
    apply closes.bind
    intro closed within
    have upTo : ∀ line ∈ closed.endLine.lines.toList.filter (!·.isEmpty), UpTo length line := by
      intro line mem
      have inLines := Array.mem_toList_iff.mp (List.mem_filter.mp mem).1
      exact (within.endLine between).lines line inLines
    exact (resolveLines_reading upTo).bind fun _ _ => .ok trivial
  exact Scan.scanner.diagnoses step finish fresh

end Script

end Esoterica
