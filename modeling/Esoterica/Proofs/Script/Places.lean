import Esoterica.Proofs.Script.Mistakes
import Esoterica.Proofs.Text.Places

/-!
# Places in scripts

Lexemes have places, which their tokens take over, and mistakes are reported there. What a script is
read as does not depend on places otherwise: neither the contents of its commands, nor the names of
its variables, nor the causes of mistakes.
-/

namespace Esoterica

namespace Script

def Located.unplaced {α : Type} (located : Located α) : Located α :=
  { located with offset := 0 }

/-- The mode without the place where something started. -/
def Mode.unplaced : Mode → Mode
  | .between => .between
  | .name kind _ read => .name kind 0 read
  | .number _ value => .number 0 value
  | .string _ read => .string 0 read
  | .stringEscape _ read => .stringEscape 0 read
  | .slash _ => .slash 0
  | .dash _ => .dash 0
  | .comment => .comment

namespace Scan

/-- The scan without the places of lexemes. -/
def unplaced (scan : Scan) : Scan where
  lines := scan.lines.map (·.map Located.unplaced)
  line := scan.line.map Located.unplaced
  mode := scan.mode.unplaced

variable (scan : Scan) (offset : Nat)

theorem push_unplaced (lexeme : Lexeme) :
    (scan.push offset lexeme).unplaced = scan.unplaced.push 0 lexeme := by
  simp [push, unplaced, Mode.unplaced, Located.unplaced]

theorem endLine_unplaced : scan.endLine.unplaced = scan.unplaced.endLine := by
  simp [endLine, unplaced, Mode.unplaced]

theorem stepBetween_unplaced (c : Char) :
    bare unplaced (scan.stepBetween offset c) = bare id (scan.unplaced.stepBetween 0 c) := by
  unfold stepBetween
  split
  · exact congrArg Except.ok scan.endLine_unplaced
  split
  · rfl
  split
  · rfl
  split
  · rfl
  · rfl
  · rfl
  · rfl
  · rfl
  · rfl
  · rfl
  · exact congrArg Except.ok (scan.push_unplaced offset _)
  · exact congrArg Except.ok (scan.push_unplaced offset _)
  · exact congrArg Except.ok (scan.push_unplaced offset _)
  · exact congrArg Except.ok (scan.push_unplaced offset _)
  · split
    · exact congrArg Except.ok (scan.push_unplaced offset _)
    · rfl

theorem close_unplaced : bare unplaced (scan.close offset) = bare id (scan.unplaced.close 0) := by
  unfold close
  rw [show scan.unplaced.mode = scan.mode.unplaced from rfl]
  cases scan.mode with
  | between | comment | string | stringEscape => rfl
  | name | number | slash | dash => exact congrArg Except.ok (scan.push_unplaced _ _)

theorem closeAndStep_unplaced (c : Char) :
    bare unplaced (scan.closeAndStep offset c) = bare id (scan.unplaced.closeAndStep 0 c) := by
  apply bare_bind (scan.close_unplaced offset)
  rintro closed _ rfl
  exact closed.stepBetween_unplaced offset c

/-- What a character does depends neither on its own place nor on those of lexemes. -/
theorem step_unplaced (c : Char) :
    bare unplaced (scan.step offset c) = bare id (scan.unplaced.step 0 c) := by
  unfold step
  rw [show scan.unplaced.mode = scan.mode.unplaced from rfl]
  cases scan.mode with
  | between => exact scan.stepBetween_unplaced offset c
  | name kind start read =>
      simp only [Mode.unplaced]
      split
      · rfl
      · exact scan.closeAndStep_unplaced offset c
  | number start value =>
      simp only [Mode.unplaced]
      split
      · split
        · rfl
        · rfl
      · exact scan.closeAndStep_unplaced offset c
  | string start read =>
      simp only [Mode.unplaced]
      split
      · exact congrArg Except.ok (scan.push_unplaced start _)
      · rfl
      · rfl
      · rfl
  | slash start =>
      simp only [Mode.unplaced]
      split
      · rfl
      · rw [← scan.push_unplaced start]
        exact stepBetween_unplaced _ offset c
  | dash start =>
      simp only [Mode.unplaced]
      split
      · exact congrArg Except.ok (scan.push_unplaced start _)
      · rw [← scan.push_unplaced start]
        exact stepBetween_unplaced _ offset c
  | stringEscape start read =>
      simp only [Mode.unplaced]
      split
      · rfl
      · rfl
      · rfl
  | comment =>
      simp only [Mode.unplaced]
      split
      · exact congrArg Except.ok scan.endLine_unplaced
      · rfl

end Scan

/-! ### Names -/

theorem contents_unplaced {α : Type} (line : List (Located α)) :
    (line.map Located.unplaced).map Located.content = line.map Located.content := by
  rw [List.map_map]
  rfl

theorem resolveConstant_unplaced (names : Names) (offset : Nat) (name : String)
    (rest : List (Located Lexeme)) :
    bare id (resolveConstant names offset name rest) =
      bare id (resolveConstant names 0 name (rest.map Located.unplaced)) := by
  fun_induction resolveConstant names offset name rest with
  | case1 => rfl
  | case2 offset name place value rest known =>
      simp only [List.map_cons, Located.unplaced, resolveConstant, known, if_true]
      rfl
  | case3 offset name place value rest new literal isLiteral =>
      simp only [List.map_cons, Located.unplaced, resolveConstant, new, isLiteral]
      rfl
  | case4 offset name place value rest new inner isConstant ih =>
      simp only [List.map_cons, Located.unplaced, resolveConstant, new, isConstant]
      apply bare_bind ih
      rintro resolved _ rfl
      rfl
  | case5 offset name place value rest new noLiteral noConstant =>
      simp only [List.map_cons, Located.unplaced, resolveConstant, new]
      rfl
  | case6 rest offset name literal known notAlone notFollowed =>
      have noColon := head?_ne_colon notAlone notFollowed
      rw [← contents_unplaced] at noColon
      rw [resolveConstant_of_noColon 0 name noColon, known]
  | case7 rest offset name unknown notAlone notFollowed =>
      have noColon := head?_ne_colon notAlone notFollowed
      rw [← contents_unplaced] at noColon
      rw [resolveConstant_of_noColon 0 name noColon, unknown]
      rfl

/-- The contents of a command, and the names behind it. -/
def resolution (resolved : List (Located Token) × Names) : List Token × Names :=
  (resolved.1.map Located.content, resolved.2)

theorem bare_cons {left right : Except Misplaced (List (Located Token) × Names)}
    (same : bare resolution left = bare resolution right) {first second : Located Token}
    (sameContent : first.content = second.content) :
    bare resolution (left.bind fun (tokens, names) => .ok (first :: tokens, names)) =
      bare resolution (right.bind fun (tokens, names) => .ok (second :: tokens, names)) := by
  apply bare_bind same
  rintro ⟨tokens, names⟩ ⟨others, _⟩ alike
  obtain ⟨sameContents, rfl⟩ := Prod.mk.inj alike
  have sameLine : (first :: tokens).map Located.content =
      (second :: others).map Located.content := by
    rw [List.map_cons, List.map_cons, sameContent, sameContents]
  exact congrArg (fun contents => Except.ok (contents, names)) sameLine

theorem resolveLine_unplaced (names : Names) (skip : Nat) (line : List (Located Lexeme)) :
    bare resolution (resolveLine names skip line) =
      bare resolution (resolveLine names skip (line.map Located.unplaced)) := by
  induction line generalizing names skip with
  | nil => rfl
  | cons located rest ih =>
      rcases located with ⟨offset, lexeme⟩
      cases skip with
      | succ skip => exact ih names skip
      | zero =>
          rcases lexeme with item | name | name
          · exact bare_cons (ih names 0) rfl
          · exact bare_cons (ih (names.slot name).2 0) rfl
          · apply bare_bind (resolveConstant_unplaced names offset name rest)
            rintro resolved _ rfl
            exact bare_cons (ih resolved.names resolved.used) rfl

/-- The contents of commands, and the names behind them. -/
def resolutions (resolved : List (List (Located Token)) × Names) : List (List Token) × Names :=
  (resolved.1.map (·.map Located.content), resolved.2)

theorem resolveLines_unplaced (names : Names) (lines : List (List (Located Lexeme))) :
    bare resolutions (resolveLines names lines) =
      bare resolutions (resolveLines names (lines.map (·.map Located.unplaced))) := by
  induction lines generalizing names with
  | nil => rfl
  | cons line rest ih =>
      apply bare_bind (resolveLine_unplaced names 0 line)
      rintro ⟨command, names⟩ ⟨commandToo, _⟩ alike
      obtain ⟨sameCommand, rfl⟩ := Prod.mk.inj alike
      apply bare_bind (ih names)
      rintro ⟨commands, names⟩ ⟨commandsToo, _⟩ alike
      obtain ⟨sameCommands, rfl⟩ := Prod.mk.inj alike
      have sameLines : (command :: commands).map (·.map Located.content) =
          (commandToo :: commandsToo).map (·.map Located.content) := by
        rw [List.map_cons, List.map_cons, sameCommand, sameCommands]
      exact congrArg (fun contents => Except.ok (contents, names)) sameLines

/-! ### Scripts -/

/-- The commands without places, and the variables' names. -/
def substance (script : Script) : List (List Token) × Array String :=
  (script.contents, script.variableNames)

namespace Scan

theorem finish_unplaced (scan : Scan) (length : Nat) :
    bare substance (scan.finish length) = bare substance (scan.unplaced.finish 0) := by
  apply bare_bind (scan.close_unplaced length)
  rintro closed _ rfl
  have sameLines : closed.unplaced.endLine.lines.toList.filter (!·.isEmpty) =
      (closed.endLine.lines.toList.filter (!·.isEmpty)).map (·.map Located.unplaced) := by
    rw [← endLine_unplaced]
    simp [unplaced, List.filter_map, Function.comp_def]
  simp only [sameLines]
  apply bare_bind (resolveLines_unplaced {} _)
  rintro ⟨commands, names⟩ ⟨commandsToo, _⟩ alike
  obtain ⟨sameCommands, rfl⟩ := Prod.mk.inj alike
  exact congrArg (fun contents => Except.ok (contents, names.slots)) sameCommands

theorem blind : Scanner.Blind step finish unplaced substance where
  step left right same leftOffset rightOffset c := by
    rw [step_unplaced left, same, ← step_unplaced right]
  finish left right same leftOffset rightOffset := by
    rw [finish_unplaced left, same, ← finish_unplaced right]

end Scan

/-- Parts of a script that are scanned to the same up to places can be exchanged. -/
theorem outcome_exchange {before left right : String} {scan afterLeft afterRight : Scan}
    (reads : Scan.steps {} 0 before.toList = .ok scan)
    (readsLeft : scan.steps before.toList.length left.toList = .ok afterLeft)
    (readsRight : scan.steps before.toList.length right.toList = .ok afterRight)
    (same : afterLeft.unplaced = afterRight.unplaced) (after : String) :
    outcome substance (read (before ++ left ++ after)) =
      outcome substance (read (before ++ right ++ after)) := by
  simp only [read_eq_reporting, outcome_reporting, String.toList_append]
  exact Scan.scanner.bare_exchange Scan.blind reads readsLeft readsRight same after.toList

end Script

end Esoterica
