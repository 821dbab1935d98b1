import Esoterica.Script.Resolve
import Esoterica.Proofs.Scanning

/-!
# Printing command scripts

Lexemes are printed with a blank between them and a line break between commands. What is printed of
proper lexemes, those that can stand in a source, is scanned as the same lexemes.
-/

namespace Esoterica

namespace Script

/-- All characters can be part of a name; there may be none. -/
def IsName (name : String) : Prop :=
  ∀ c ∈ name.toList, isNameChar c = true

instance (name : String) : Decidable (IsName name) :=
  List.decidableBAll (isNameChar · = true) name.toList

namespace Literal

def Proper : Literal → Prop
  | number value => value ≤ greatestNumber
  | text _ => True

instance : (literal : Literal) → Decidable literal.Proper
  | number value => Nat.decLe value greatestNumber
  | text _ => inferInstanceAs (Decidable True)

/-- A character as it stands in a string. -/
def escape (c : Char) : List Char :=
  if c = '\n' then ['\\', 'n'] else if c = '"' ∨ c = '\\' then ['\\', c] else [c]

def spell : Literal → List Char
  | number value => '~' :: Nat.toDigits 16 value
  | text content => '"' :: (content.toList.flatMap escape ++ ['"'])

end Literal

namespace Item

def Proper : Item → Prop
  | key name => name ≠ "" ∧ IsName name
  | value literal => literal.Proper
  | info name => IsName name
  | operator symbol => isOperator symbol = true
  | openBracket bracket => bracket = '[' ∨ bracket = '('
  | closeBracket bracket => bracket = ']' ∨ bracket = ')'
  | arrow => True

instance : (item : Item) → Decidable item.Proper
  | key name => inferInstanceAs (Decidable (name ≠ "" ∧ IsName name))
  | value literal => inferInstanceAs (Decidable literal.Proper)
  | info name => inferInstanceAs (Decidable (IsName name))
  | operator symbol => inferInstanceAs (Decidable (isOperator symbol = true))
  | openBracket bracket => inferInstanceAs (Decidable (bracket = '[' ∨ bracket = '('))
  | closeBracket bracket => inferInstanceAs (Decidable (bracket = ']' ∨ bracket = ')'))
  | arrow => inferInstanceAs (Decidable True)

def spell : Item → List Char
  | key name => name.toList
  | value literal => literal.spell
  | info name => '@' :: name.toList
  | operator symbol => [symbol]
  | openBracket bracket => [bracket]
  | closeBracket bracket => [bracket]
  | arrow => ['-', '>']

end Item

namespace Lexeme

/-- The lexeme can stand in a source. -/
def Proper : Lexeme → Prop
  | plain item => item.Proper
  | .variable name => IsName name
  | constant name => IsName name

def spell : Lexeme → List Char
  | plain item => item.spell
  | .variable name => '$' :: name.toList
  | constant name => '#' :: name.toList

end Lexeme

/-- The lexemes of a line, with a blank between any two. -/
def printLine (line : List Lexeme) : String :=
  " ".intercalate (line.map fun lexeme => String.ofList lexeme.spell)

/-- Lines, with a line break between any two. -/
def printLines (lines : List (List Lexeme)) : String :=
  "\n".intercalate (lines.map printLine)

/-- A blank ends what is being read. -/
def Mode.Ends : Mode → Prop
  | .string _ _ | .stringEscape _ _ | .comment => False
  | _ => True

theorem isBlank_of_isNameChar {c : Char} (nameChar : isNameChar c = true) : isBlank c = false := by
  change (((decide ('A'.val ≤ c.val ∧ c.val ≤ 'Z'.val) ||
    (decide ('a'.val ≤ c.val) && decide (c.val ≤ 'z'.val))) ||
    (decide ('0'.val ≤ c.val) && decide (c.val ≤ '9'.val))) || c == '_') = true at nameChar
  simp only [Bool.or_eq_true, Bool.and_eq_true, decide_eq_true_eq, beq_iff_eq] at nameChar
  have between {first last : Char} (lower : first.val ≤ c.val) (upper : c.val ≤ last.val)
      (visible : '!'.toNat ≤ first.toNat ∧ last.toNat ≤ '~'.toNat) : isBlank c = false :=
    isBlank_of_visible (Nat.le_trans visible.1 (UInt32.le_iff_toNat_le.mp lower))
      (Nat.le_trans (UInt32.le_iff_toNat_le.mp upper) visible.2)
  rcases nameChar with ((⟨lower, upper⟩ | ⟨lower, upper⟩) | ⟨lower, upper⟩) | rfl
  · exact between lower upper (by decide)
  · exact between lower upper (by decide)
  · exact between lower upper (by decide)
  · decide

theorem hexDigit?_digitChar {digit : Nat} (bounded : digit < 16) :
    hexDigit? digit.digitChar = some digit := by
  revert digit
  decide

namespace Scan

theorem scanner : Scanner step steps :=
  ⟨fun _ _ => rfl, fun _ _ _ _ => rfl⟩

variable {scan : Scan}

/-- Where a blank ends what is being read, so does every character that could not be part of it. -/
theorem step_eq_of_ends (ends : scan.mode.Ends) (c : Char) (noName : isNameChar c = false)
    (noDigit : hexDigit? c = none) (noComment : c = '/' → ∀ start, scan.mode ≠ .slash start)
    (noAngle : c ≠ '>') (offset : Nat) :
    scan.step offset c = scan.closeAndStep offset c := by
  rcases scan with ⟨lines, line, mode⟩
  cases mode with
  | between => rfl
  | name kind start read => simp [step, noName]
  | number start value => simp [step, noDigit]
  | slash start =>
      have noSlash : c ≠ '/' := fun isSlash => noComment isSlash start rfl
      simp only [step, if_neg noSlash]
      rfl
  | dash start =>
      simp only [step, if_neg noAngle]
      rfl
  | string | stringEscape | comment => cases ends

/-- Something was read up to a place where a blank ends it. -/
structure Pending (scan after : Scan) : Prop where
  ends : scan.mode.Ends
  between : after.mode = .between
  close_eq : ∀ offset, scan.close offset = .ok after

namespace Pending

variable {after : Scan}

theorem closeAndStep_eq (pending : scan.Pending after) (offset : Nat) (c : Char) :
    scan.closeAndStep offset c = after.stepBetween offset c := by
  rw [closeAndStep, pending.close_eq]
  rfl

theorem step_blank (pending : scan.Pending after) (offset : Nat) :
    scan.step offset ' ' = .ok after := by
  have noName : isNameChar ' ' = false := by decide
  have noDigit : hexDigit? ' ' = none := by decide
  have blank : isBlank ' ' = true := by decide
  rw [step_eq_of_ends pending.ends ' ' noName noDigit (by simp) (by decide),
    pending.closeAndStep_eq]
  unfold stepBetween
  rw [if_neg (by decide), if_pos blank, ← pending.between]

theorem step_newline (pending : scan.Pending after) (offset : Nat) :
    scan.step offset '\n' = .ok after.endLine := by
  have noName : isNameChar '\n' = false := by decide
  have noDigit : hexDigit? '\n' = none := by decide
  rw [step_eq_of_ends pending.ends '\n' noName noDigit (by simp) (by decide),
    pending.closeAndStep_eq]
  exact if_pos rfl

end Pending

/-- Digits of base sixteen are read as the number they spell. -/
theorem steps_digits {start value : Nat} (bounded : value ≤ greatestNumber)
    (offset : Nat) :
    steps { scan with mode := .number start 0 } offset (Nat.toDigits 16 value) =
      .ok { scan with mode := .number start value } := by
  have adds {value digit : Nat} (isDigit : digit < 16)
      (bounded : 16 * value + digit ≤ greatestNumber) (offset : Nat) :
      step { scan with mode := .number start value } offset digit.digitChar =
        .ok { scan with mode := .number start (16 * value + digit) } := by
    simp only [step, hexDigit?_digitChar isDigit, if_neg (Nat.not_lt.mpr bounded)]
  induction value using Nat.strongRecOn generalizing offset with
  | ind value ih =>
      by_cases small : value < 16
      · rw [Nat.toDigits_of_lt_base small]
        apply scanner.single_of_ok
        have first := adds small (show 16 * 0 + value ≤ greatestNumber by omega) (offset + 1)
        rwa [Nat.mul_zero, Nat.zero_add] at first
      · have quotient : value / 16 < value := by omega
        rw [Nat.toDigits_of_base_le (by decide) (by omega),
          scanner.append_of_ok (ih (value / 16) quotient (by omega) offset)]
        apply scanner.single_of_ok
        rw [adds (Nat.mod_lt value (by decide)) (by omega), Nat.div_add_mod]

theorem steps_name {kind : NameKind} {start : Nat} {text : List Char} {read : String}
    (nameChars : ∀ c ∈ text, isNameChar c = true) (offset : Nat) :
    steps { scan with mode := .name kind start read } offset text =
      .ok { scan with mode := .name kind start (read ++ String.ofList text) } := by
  let having (read : String) : Scan := { scan with mode := .name kind start read }
  apply scanner.text_of_adds having
  intro c mem read offset
  simp [step, having, nameChars c mem]

theorem pending_name {kind : NameKind} {start : Nat} {name : String} :
    Pending { scan with mode := .name kind start name } (scan.push start (kind.lexeme name)) :=
  ⟨trivial, rfl, fun _ => rfl⟩

/-- What stands between quotes is read as the text that was escaped. -/
theorem steps_string {start : Nat} (content : String) (offset : Nat) :
    steps { scan with mode := .string start "" } offset (content.toList.flatMap Literal.escape) =
      .ok { scan with mode := .string start content } := by
  let having (read : String) : Scan := { scan with mode := .string start read }
  have adds : ∀ c ∈ content.toList, ∀ (read : String) (offset : Nat),
      (having read).steps offset (Literal.escape c) = .ok (having (read.push c)) := by
    intro c _ read offset
    have escapes : (having read).step (offset + 1) '\\' =
        .ok { scan with mode := .stringEscape start read } := by
      simp [step, having]
    by_cases newline : c = '\n'
    · subst newline
      rw [Literal.escape, if_pos rfl, scanner.cons_of_ok escapes]
      exact scanner.single_of_ok rfl
    · by_cases special : c = '"' ∨ c = '\\'
      · rw [Literal.escape, if_neg newline, if_pos special, scanner.cons_of_ok escapes]
        apply scanner.single_of_ok
        rcases special with rfl | rfl
        · rfl
        · rfl
      · rcases not_or.mp special with ⟨noQuote, noEscape⟩
        rw [Literal.escape, if_neg newline, if_neg special]
        apply scanner.single_of_ok
        simp [step, having]
  have added := scanner.flatMap_of_adds having Literal.escape adds "" offset
  rwa [String.ofList_toList, String.empty_append] at added

theorem step_of_between (between : scan.mode = .between) (offset : Nat) (c : Char) :
    scan.step offset c = scan.stepBetween offset c := by
  rcases scan with ⟨lines, line, mode⟩
  cases between
  rfl

theorem pending_push (offset : Nat) (lexeme : Lexeme) :
    Pending (scan.push offset lexeme) (scan.push offset lexeme) :=
  ⟨trivial, rfl, fun _ => rfl⟩

/-- A name is read behind the character that says of what kind it is. -/
theorem steps_sign {sign : Char} (kind : NameKind) {name : String} (isName : IsName name)
    (offset : Nat) (opens : scan.step (offset + 1) sign =
      .ok { scan with mode := .name kind (offset + 1) "" }) :
    ∃ pending : Scan, scan.steps offset (sign :: name.toList) = .ok pending ∧
      pending.Pending (scan.push (offset + 1) (kind.lexeme name)) := by
  refine ⟨{ scan with mode := .name kind (offset + 1) name }, ?_, pending_name⟩
  rw [scanner.cons_of_ok opens, steps_name isName, String.ofList_toList, String.empty_append]

theorem steps_key {name : String} (nonempty : name ≠ "") (isName : IsName name)
    (between : scan.mode = .between) (offset : Nat) :
    ∃ pending : Scan, scan.steps offset name.toList = .ok pending ∧
      pending.Pending (scan.push (offset + 1) (.plain (.key name))) := by
  refine ⟨{ scan with mode := .name .key (offset + 1) name }, ?_, pending_name⟩
  rcases List.exists_cons_of_ne_nil (mt String.toList_eq_nil_iff.mp nonempty)
    with ⟨first, more, spelled⟩
  have firstChar : isNameChar first = true := isName first (by simp [spelled])
  have moreChars : ∀ c ∈ more, isNameChar c = true := fun c mem => isName c (by simp [spelled, mem])
  have opens : scan.step (offset + 1) first =
      .ok { scan with mode := .name .key (offset + 1) first.toString } := by
    have noBreak : first ≠ '\n' := by
      rintro rfl
      exact absurd firstChar (by decide)
    rw [step_of_between between]
    unfold stepBetween
    rw [if_neg noBreak, if_neg (by simp [isBlank_of_isNameChar firstChar]), if_pos firstChar]
  rw [spelled, scanner.cons_of_ok opens, steps_name moreChars]
  have whole : first.toString ++ String.ofList more = name := by
    apply String.toList_inj.mp
    simp [spelled]
  rw [whole]

theorem steps_literal {literal : Literal} (proper : literal.Proper)
    (between : scan.mode = .between) (offset : Nat) :
    ∃ pending : Scan, scan.steps offset literal.spell = .ok pending ∧
      pending.Pending (scan.push (offset + 1) (.plain (.value literal))) := by
  cases literal with
  | number value =>
      have opens : scan.step (offset + 1) '~' =
          .ok { scan with mode := .number (offset + 1) 0 } := by
        rw [step_of_between between]
        rfl
      refine ⟨{ scan with mode := .number (offset + 1) value }, ?_, trivial, rfl, fun _ => rfl⟩
      rw [Literal.spell, scanner.cons_of_ok opens, steps_digits proper]
  | text content =>
      have opens : scan.step (offset + 1) '"' =
          .ok { scan with mode := .string (offset + 1) "" } := by
        rw [step_of_between between]
        rfl
      refine ⟨_, ?_, pending_push (offset + 1) (.plain (.value (.text content)))⟩
      rw [Literal.spell, scanner.cons_of_ok opens, scanner.append_of_ok (steps_string content _)]
      exact scanner.single_of_ok rfl

/-- Of the operators, a slash and a dash are known as such only when they end. -/
theorem steps_operator {symbol : Char} (isOperator : isOperator symbol = true)
    (between : scan.mode = .between) (offset : Nat) :
    ∃ pending : Scan, scan.steps offset [symbol] = .ok pending ∧
      pending.Pending (scan.push (offset + 1) (.plain (.operator symbol))) := by
  have pushes (pushed : scan.stepBetween (offset + 1) symbol =
      .ok (scan.push (offset + 1) (.plain (.operator symbol)))) :
      ∃ pending : Scan, scan.steps offset [symbol] = .ok pending ∧
        pending.Pending (scan.push (offset + 1) (.plain (.operator symbol))) := by
    rw [← step_of_between between] at pushed
    exact ⟨_, scanner.single_of_ok pushed, pending_push (offset + 1) _⟩
  have listed : symbol ∈ ['!', '/', '*', '+', '-', '=', '%', ':'] := by
    simpa [Script.isOperator] using isOperator
  simp only [List.mem_cons, List.not_mem_nil, or_false] at listed
  rcases listed with rfl | rfl | rfl | rfl | rfl | rfl | rfl | rfl
  case inr.inl =>
    exact ⟨{ scan with mode := .slash (offset + 1) },
      scanner.single_of_ok (step_of_between between (offset + 1) '/'), trivial, rfl, fun _ => rfl⟩
  case inr.inr.inr.inr.inl =>
    exact ⟨{ scan with mode := .dash (offset + 1) },
      scanner.single_of_ok (step_of_between between (offset + 1) '-'), trivial, rfl, fun _ => rfl⟩
  all_goals exact pushes rfl

/-- Every proper lexeme is read, up to what ends it. -/
theorem steps_lexeme {lexeme : Lexeme} (proper : lexeme.Proper) (between : scan.mode = .between)
    (offset : Nat) :
    ∃ pending : Scan, scan.steps offset lexeme.spell = .ok pending ∧
      pending.Pending (scan.push (offset + 1) lexeme) := by
  have reads (c : Char) := step_of_between between (offset + 1) c
  rcases lexeme with item | name | name
  · cases item with
    | key name => exact steps_key proper.1 proper.2 between offset
    | value literal => exact steps_literal proper between offset
    | info name => exact steps_sign .info proper offset (reads '@')
    | operator symbol => exact steps_operator proper between offset
    | openBracket bracket | closeBracket bracket =>
        refine ⟨_, scanner.single_of_ok ?_, pending_push (offset + 1) _⟩
        rw [reads]
        rcases proper with rfl | rfl
        · rfl
        · rfl
    | arrow =>
        have opens : scan.step (offset + 1) '-' =
            .ok { scan with mode := .dash (offset + 1) } := reads '-'
        refine ⟨_, ?_, pending_push (offset + 1) _⟩
        rw [Lexeme.spell, Item.spell, scanner.cons_of_ok opens]
        exact scanner.single_of_ok rfl
  · exact steps_sign .variable proper offset (reads '$')
  · exact steps_sign .constant proper offset (reads '#')

/-- A printed line is read as lexemes with the same contents. -/
theorem steps_line {line : List Lexeme} (nonempty : line ≠ [])
    (proper : ∀ lexeme ∈ line, lexeme.Proper) (between : scan.mode = .between) (offset : Nat) :
    ∃ (pending : Scan) (added : List (Located Lexeme)),
      scan.steps offset (printLine line).toList = .ok pending ∧
      pending.Pending { scan with line := scan.line ++ added.toArray } ∧
      added.map Located.content = line := by
  induction line generalizing scan offset with
  | nil => contradiction
  | cons lexeme rest ih =>
      rcases steps_lexeme (proper lexeme (by simp)) between offset with ⟨pending, reads, ends⟩
      cases rest with
      | nil =>
          refine ⟨pending, [⟨offset + 1, lexeme⟩], ?_, ?_, rfl⟩
          · simpa [printLine] using reads
          · simpa [push, between] using ends
      | cons next rest =>
          have spelled : (printLine (lexeme :: next :: rest)).toList =
              lexeme.spell ++ ' ' :: (printLine (next :: rest)).toList := by
            simp [printLine]
          rcases ih (by simp) (fun other mem => proper other (by simp [mem])) ends.between
            (offset + lexeme.spell.length + 1) with ⟨last, added, readsRest, endsRest, contents⟩
          refine ⟨last, ⟨offset + 1, lexeme⟩ :: added, ?_, ?_, by simp [contents]⟩
          · rw [spelled, scanner.append_of_ok reads, scanner.cons_of_ok (ends.step_blank _),
              readsRest]
          · simpa [push, between] using endsRest

/-- Printed lines are read as lines with the same contents. -/
theorem steps_lines {lines : List (List Lexeme)} (nonempty : lines ≠ [])
    (proper : ∀ line ∈ lines, line ≠ [] ∧ ∀ lexeme ∈ line, lexeme.Proper)
    (between : scan.mode = .between) (atStart : scan.line = #[]) (offset : Nat) :
    ∃ (pending after : Scan) (added : List (List (Located Lexeme))),
      scan.steps offset (printLines lines).toList = .ok pending ∧ pending.Pending after ∧
      after.endLine.lines = scan.lines ++ added.toArray ∧
      added.map (·.map Located.content) = lines := by
  induction lines generalizing scan offset with
  | nil => contradiction
  | cons line rest ih =>
      rcases proper line (by simp) with ⟨lineNonempty, lineProper⟩
      rcases steps_line lineNonempty lineProper between offset
        with ⟨pending, added, reads, ends, contents⟩
      cases rest with
      | nil =>
          refine ⟨pending, _, [added], ?_, ends, ?_, by simp [contents]⟩
          · simpa [printLines] using reads
          · simp [endLine, atStart]
      | cons next rest =>
          have spelled : (printLines (line :: next :: rest)).toList =
              (printLine line).toList ++ '\n' :: (printLines (next :: rest)).toList := by
            simp [printLines]
          have newLine : (endLine { scan with line := scan.line ++ added.toArray }).mode =
              .between := rfl
          rcases ih (by simp) (fun other mem => proper other (by simp [mem])) newLine rfl
            (offset + (printLine line).toList.length + 1)
            with ⟨last, after, others, readsRest, endsRest, linesRest, contentsRest⟩
          refine ⟨last, after, added :: others, ?_, endsRest, ?_, by simp [contents, contentsRest]⟩
          · rw [spelled, scanner.append_of_ok reads, scanner.cons_of_ok (ends.step_newline _),
              readsRest]
          · rw [linesRest]
            simp [endLine, atStart]

end Scan

/-- Printed lines with proper lexemes, none of them empty, are what is read. -/
theorem readLines_printLines {lines : List (List Lexeme)}
    (proper : ∀ line ∈ lines, line ≠ [] ∧ ∀ lexeme ∈ line, lexeme.Proper) :
    ∃ read, readLines (printLines lines).toList = .ok read ∧
      (read.filter (!·.isEmpty)).map (·.map Located.content) = lines := by
  by_cases nonempty : lines = []
  · subst nonempty
    exact ⟨[[]], rfl, rfl⟩
  · have start : Scan.mode {} = .between := rfl
    rcases Scan.steps_lines nonempty proper start rfl 0
      with ⟨pending, after, added, reads, ends, complete, contents⟩
    have keepsAll : added.filter (!·.isEmpty) = added := by
      apply List.filter_eq_self.mpr
      intro line mem
      have printed : line.map Located.content ∈ lines := by
        rw [← contents]
        exact List.mem_map_of_mem mem
      simpa using (proper _ printed).1
    refine ⟨added, ?_, by rw [keepsAll, contents]⟩
    simp only [readLines, reads]
    change (pending.close _).bind (fun scan => .ok scan.endLine.lines.toList) = _
    rw [ends.close_eq]
    change Except.ok after.endLine.lines.toList = _
    rw [complete]
    simp

end Script

end Esoterica
