import Esoterica.Proofs.Script.Digits
import Esoterica.Proofs.Script.Layout
import Esoterica.Proofs.Script.RoundTrip

/-!
# Numbers are read exactly

A number is a `~` and the digits of base sixteen behind it, as far as they go. If what the digits
denote is at most `2 ^ 63 - 1`, it is read as that number and the scan goes on behind it; otherwise
the source is refused at the `~`. Nothing else is read as a number.

To find a number among all that was read, two things are followed through the rest of the source: a
lexeme that was read stays, and nothing is read any more at a place that was passed.
-/

namespace Esoterica

namespace Script

/-! ### Reading a number -/

namespace Scan

variable {scan closed : Scan} {offset start : Nat}

/-- Reads the rest of a source behind the characters up to an offset. -/
def readOn (scan : Scan) (offset : Nat) (rest : List Char) :
    Except Misplaced (List (List (Located Lexeme))) := do
  let scan ← scan.steps offset rest
  let scan ← scan.close (offset + rest.length)
  return scan.endLine.lines.toList

theorem readLines_eq_readOn (source : List Char) : readLines source = readOn {} 0 source := by
  unfold readLines readOn
  rw [Nat.zero_add]

theorem readOn_append_of_ok {next : Scan} {first second : List Char}
    (reads : scan.steps offset first = .ok next) :
    scan.readOn offset (first ++ second) = next.readOn (offset + first.length) second := by
  unfold readOn
  rw [scanner.append_of_ok reads, List.length_append, Nat.add_assoc]

theorem readOn_append_of_error {misplaced : Misplaced} {first second : List Char}
    (fails : scan.steps offset first = .error misplaced) :
    scan.readOn offset (first ++ second) = .error misplaced := by
  unfold readOn
  rw [scanner.append_of_error fails]
  rfl

/-- The same can be read on if the next character does the same and so does the end. -/
theorem readOn_congr {other : Scan} {rest : List Char}
    (steps : ∀ c ∈ rest.head?, scan.step (offset + 1) c = other.step (offset + 1) c)
    (closes : rest = [] → scan.close offset = other.close offset) :
    scan.readOn offset rest = other.readOn offset rest := by
  cases rest with
  | nil =>
      change (scan.close offset).bind _ = (other.close offset).bind _
      rw [closes rfl]
  | cons c rest =>
      unfold readOn
      rw [scanner.cons, scanner.cons, steps c rfl]

theorem exists_pending (ends : scan.mode.Ends) : ∃ closed, scan.Pending closed := by
  rcases scan with ⟨lines, line, mode⟩
  cases mode with
  | between | name | number | slash | dash => exact ⟨_, ends, rfl, fun _ => rfl⟩
  | string | stringEscape | comment => cases ends

/-- Where something can start, a number does. -/
theorem Pending.step_tilde (pending : scan.Pending closed) (offset : Nat) :
    scan.step offset '~' = .ok { closed with mode := .number offset 0 } := by
  rw [step_eq_of_ends pending.ends '~' (by decide) (by decide) (by simp) (by decide),
    pending.closeAndStep_eq]
  rfl

theorem steps_number {digits : List Char} {value : Nat} (denotes : Denotes digits value)
    (offset : Nat) :
    steps { scan with mode := .number start 0 } offset digits =
      if value ≤ greatestNumber then .ok { scan with mode := .number start value }
      else .error ⟨.numberTooLarge, start⟩ := by
  have digitwise : Denotes.Digitwise
      (fun offset number => steps { scan with mode := .number start number } offset)
      (fun number => .ok { scan with mode := .number start number })
      (.error ⟨.numberTooLarge, start⟩) := by
    refine ⟨fun _ _ => rfl, ?_⟩
    intro offset number c digit rest _ isDigit
    simp only [scanner.cons, step, hexDigit?_eq_some_iff.mpr isDigit]
    by_cases small : 16 * number + digit ≤ greatestNumber
    · rw [if_neg (Nat.not_lt.mpr small), if_pos small]
      rfl
    · rw [if_pos (Nat.not_le.mp small), if_neg small]
      rfl
  exact denotes.run_eq digitwise offset

/-- Behind its last digit a number is complete. -/
theorem readOn_number {value : Nat} {after : List Char}
    (stops : ∀ c ∈ after.head?, ∀ digit, ¬ IsHexDigit c digit) :
    readOn { scan with mode := .number start value } offset after =
      (scan.push start (.plain (.value (.number value)))).readOn offset after := by
  apply readOn_congr
  · intro c isHead
    have noDigit : hexDigit? c = none := by
      cases found : hexDigit? c with
      | none => rfl
      | some digit => exact absurd (hexDigit?_eq_some_iff.mp found) (stops c isHead digit)
    simp only [step, noDigit]
    rfl
  · intro _
    rfl

/-! ### Lexemes stay -/

/-- A lexeme is among those that were read. -/
def Has (located : Located Lexeme) (scan : Scan) : Prop :=
  located ∈ scan.lexemes

namespace Has

variable {located : Located Lexeme}

theorem push (has : scan.Has located) (offset : Nat) (lexeme : Lexeme) :
    (scan.push offset lexeme).Has located := by
  unfold Has
  rw [lexemes_push]
  exact List.mem_append_left _ has

theorem endLine (has : scan.Has located) : scan.endLine.Has located := by
  unfold Has
  rw [lexemes_endLine]
  exact has

theorem withMode (has : scan.Has located) (mode : Mode) : Has located { scan with mode } :=
  has

theorem stepBetween (has : scan.Has located) (offset : Nat) (c : Char) :
    Reading (Has located) (fun _ => True) (scan.stepBetween offset c) := by
  unfold Scan.stepBetween
  split
  · exact .ok has.endLine
  split
  · exact .ok (has.withMode _)
  split
  · exact .ok (has.withMode _)
  split
  · exact .ok (has.withMode _)
  · exact .ok (has.withMode _)
  · exact .ok (has.withMode _)
  · exact .ok (has.withMode _)
  · exact .ok (has.withMode _)
  · exact .ok (has.withMode _)
  · exact .ok (has.withMode _)
  · exact .ok (has.push offset _)
  · exact .ok (has.push offset _)
  · exact .ok (has.push offset _)
  · exact .ok (has.push offset _)
  · split
    · exact .ok (has.push offset _)
    · exact .error trivial

theorem close (has : scan.Has located) (offset : Nat) :
    Reading (Has located) (fun _ => True) (scan.close offset) := by
  unfold Scan.close
  split
  · exact .ok (has.withMode _)
  · exact .ok (has.withMode _)
  · exact .ok (has.push _ _)
  · exact .ok (has.push _ _)
  · exact .ok (has.push _ _)
  · exact .ok (has.push _ _)
  · exact .error trivial
  · exact .error trivial

theorem closeAndStep (has : scan.Has located) (offset : Nat) (c : Char) :
    Reading (Has located) (fun _ => True) (scan.closeAndStep offset c) :=
  (has.close offset).bind fun _ hasToo => hasToo.stepBetween offset c

theorem step (has : scan.Has located) (offset : Nat) (c : Char) :
    Reading (Has located) (fun _ => True) (scan.step offset c) := by
  unfold Scan.step
  split
  · exact has.stepBetween offset c
  · split
    · exact .ok (has.withMode _)
    · exact has.closeAndStep offset c
  · split
    · simp only
      split
      · exact .error trivial
      · exact .ok (has.withMode _)
    · exact has.closeAndStep offset c
  · split
    · exact .ok (has.push _ _)
    · exact .ok (has.withMode _)
    · exact .error trivial
    · exact .ok (has.withMode _)
  · split
    · exact .ok (has.withMode _)
    · exact .error trivial
    · exact .ok (has.withMode _)
  · split
    · exact .ok (has.withMode _)
    · exact (has.push _ _).stepBetween offset c
  · split
    · exact .ok (has.push _ _)
    · exact (has.push _ _).stepBetween offset c
  · split
    · exact .ok has.endLine
    · exact .ok has

end Has

/-! ### Places that were passed -/

/-- Nothing that started at a place is still being read, and what was read there is allowed. -/
def Passed (place : Nat) (allowed : Lexeme → Prop) : Scan → Prop :=
  Holding (fun located => located.offset = place → allowed located.content)
    (·.start? ≠ some place)

section passed

variable {place : Nat} {allowed : Lexeme → Prop}

theorem passed_of_ended {mode : Mode} {lexeme : Located Lexeme} (ended : mode.Ended lexeme)
    (elsewhere : mode.start? ≠ some place) : lexeme.offset = place → allowed lexeme.content := by
  intro there
  cases ended <;> exact absurd (congrArg some there) elsewhere

theorem keptAt_passed (elsewhere : offset ≠ place) (c : Char) :
    KeptAt offset c (fun located => located.offset = place → allowed located.content)
      (·.start? ≠ some place) (fun _ => True) where
  between := by simp [Mode.start?]
  comment := by simp [Mode.start?]
  begun mode begun := by cases begun <;> simpa [Mode.start?] using elsewhere
  grown before after grown elsewhere := by cases grown <;> exact elsewhere
  ended _ _ ended elsewhere := passed_of_ended ended elsewhere
  sign _ _ there := absurd there elsewhere
  invalid := trivial
  unterminated := trivial
  tooLarge _ _ _ := trivial

theorem Passed.close (passed : scan.Passed place allowed) (offset : Nat) :
    Reading (Passed place allowed) (fun _ => True) (scan.close offset) :=
  (Holding.close passed (by simp [Mode.start?]) (fun _ _ => passed_of_ended) offset).mono
    fun _ _ => trivial

theorem Passed.of_mem (passed : scan.Passed place allowed) :
    ∀ located ∈ scan.lexemes, located.offset = place → allowed located.content := by
  intro located mem
  rcases List.mem_append.mp mem with mem | mem
  · rcases List.mem_flatten.mp mem with ⟨line, inLines, inLine⟩
    exact passed.lines line (Array.mem_toList_iff.mp inLines) located inLine
  · exact passed.line located (Array.mem_toList_iff.mp mem)

/-- At a place that a scan has not come to, nothing has started. -/
theorem Within.passed (within : scan.Within offset) (below : offset < place) :
    scan.Passed place allowed := by
  refine ⟨?_, ?_, ?_⟩
  · intro line inLines located mem there
    have before := within.lines line inLines located mem
    omega
  · intro located mem there
    have before := within.line located mem
    omega
  · intro there
    have before := within.mode place there
    omega

end passed

theorem within_of_steps {text : List Char} (reads : steps {} 0 text = .ok scan) :
    scan.Within text.length := by
  have fresh : Within 0 {} := ⟨by simp, by simp, by simp [Mode.start?]⟩
  have reading := scanner.reading
    (fun scan offset c within => Holding.step (keptAt_within (offset + 1) c) within.succ) fresh text
  rw [reads, Nat.zero_add] at reading
  exact reading.of_ok

/-- What steps from some offset on keep, and ends keep, is kept by what is read on. -/
theorem exists_of_readOn {Kept : Scan → Prop} (floor : Nat)
    (step : ∀ scan offset c, floor < offset → Kept scan →
      Reading Kept (fun _ => True) (scan.step offset c))
    (close : ∀ scan offset, Kept scan → Reading Kept (fun _ => True) (scan.close offset))
    {rest : List Char} {lines : List (List (Located Lexeme))} (above : floor ≤ offset)
    (kept : Kept scan) (reads : scan.readOn offset rest = .ok lines) :
    ∃ final, Kept final ∧ lines.flatten = final.lexemes := by
  induction rest generalizing scan offset with
  | nil =>
      have closes := close scan offset kept
      change (scan.close offset).bind _ = _ at reads
      cases closed : scan.close offset with
      | error misplaced =>
          rw [closed] at reads
          cases reads
      | ok final =>
          rw [closed] at reads closes
          cases reads
          refine ⟨final, closes.of_ok, ?_⟩
          rw [← final.lexemes_endLine]
          simp [lexemes, endLine]
  | cons c rest ih =>
      have steps := step scan (offset + 1) c (by omega) kept
      cases stepped : scan.step (offset + 1) c with
      | error misplaced =>
          have fails : scan.steps offset [c] = .error misplaced := by
            rw [scanner.cons, stepped]
            rfl
          rw [← List.singleton_append, readOn_append_of_error fails] at reads
          cases reads
      | ok next =>
          rw [← List.singleton_append, readOn_append_of_ok (scanner.single_of_ok stepped)] at reads
          rw [stepped] at steps
          exact ih (Nat.le_succ_of_le above) steps.of_ok reads

theorem Has.mem_of_readOn {located : Located Lexeme} {rest : List Char}
    {lines : List (List (Located Lexeme))} (has : scan.Has located)
    (reads : scan.readOn offset rest = .ok lines) : located ∈ lines.flatten := by
  obtain ⟨final, hasToo, all⟩ := exists_of_readOn 0
    (fun _ offset c _ has => Has.step has offset c) (fun _ offset has => Has.close has offset)
    (Nat.zero_le _) has reads
  rw [all]
  exact hasToo

theorem Passed.of_readOn {place : Nat} {allowed : Lexeme → Prop} {rest : List Char}
    {lines : List (List (Located Lexeme))} (passed : scan.Passed place allowed)
    (above : place ≤ offset) (reads : scan.readOn offset rest = .ok lines) :
    ∀ located ∈ lines.flatten, located.offset = place → allowed located.content := by
  obtain ⟨final, passedToo, all⟩ := exists_of_readOn place
    (fun _ offset c beyond passed => Holding.step (keptAt_passed (by omega) c) passed)
    (fun _ offset passed => Passed.close passed offset) above passed reads
  rw [all]
  exact Passed.of_mem passedToo

/-- In a string and in a comment nothing starts. -/
theorem exists_step_of_not_ends (inside : ¬ scan.mode.Ends) (offset : Nat) :
    ∃ mode, scan.step offset '~' = .ok { scan with mode } ∧ mode.start? = scan.mode.start? := by
  rcases scan with ⟨lines, line, mode⟩
  cases mode with
  | between | name | number | slash | dash => exact absurd trivial inside
  | string start read => exact ⟨.string start (read.push '~'), rfl, rfl⟩
  | stringEscape start read => exact ⟨.string start (read.push '~'), rfl, rfl⟩
  | comment => exact ⟨.comment, rfl, rfl⟩

end Scan

/-! ### Numbers of a source -/

/-- A number that is written in a source, with what stands around it. -/
structure Numeral (source : List Char) where
  before : List Char
  digits : List Char
  after : List Char
  source_eq : source = before ++ '~' :: (digits ++ after)
  value : Nat
  denotes : Denotes digits value
  /-- The digits go no further. -/
  stops : ∀ c ∈ after.head?, ∀ digit, ¬ IsHexDigit c digit
  /-- What was read in front of the number. -/
  scan : Scan
  reads : Scan.steps {} 0 before = .ok scan
  /-- The number stands neither in a string nor in a comment. -/
  ends : scan.mode.Ends

namespace Numeral

variable {source : List Char}

/-- The place of the `~`, counted from one. -/
def offset (numeral : Numeral source) : Nat :=
  numeral.before.length + 1

def lexeme (numeral : Numeral source) : Lexeme :=
  .plain (.value (.number numeral.value))

/-- The scan behind the digits: the number is complete if it is not too large. -/
theorem steps_eq (numeral : Numeral source) {closed : Scan}
    (pending : numeral.scan.Pending closed) :
    Scan.steps {} 0 (numeral.before ++ '~' :: numeral.digits) =
      if numeral.value ≤ greatestNumber then
        .ok { closed with mode := .number numeral.offset numeral.value }
      else .error ⟨.numberTooLarge, numeral.offset⟩ := by
  rw [Scan.scanner.append_of_ok numeral.reads, Nat.zero_add,
    Scan.scanner.cons_of_ok (pending.step_tilde _)]
  exact Scan.steps_number numeral.denotes _

theorem readLines_parts (numeral : Numeral source) :
    readLines source =
      Scan.readOn {} 0 ((numeral.before ++ '~' :: numeral.digits) ++ numeral.after) := by
  rw [List.append_assoc]
  exact (congrArg readLines numeral.source_eq).trans (Scan.readLines_eq_readOn _)

theorem readLines_eq (numeral : Numeral source) {closed : Scan}
    (pending : numeral.scan.Pending closed) (bounded : numeral.value ≤ greatestNumber) :
    readLines source = (closed.push numeral.offset numeral.lexeme).readOn
      (numeral.offset + numeral.digits.length) numeral.after := by
  have steps := numeral.steps_eq pending
  have length : 0 + (numeral.before ++ '~' :: numeral.digits).length =
      numeral.offset + numeral.digits.length := by
    simp only [List.length_append, List.length_cons, offset]
    omega
  rw [if_pos bounded] at steps
  rw [numeral.readLines_parts, Scan.readOn_append_of_ok steps, length]
  exact Scan.readOn_number numeral.stops

theorem readLines_of_tooLarge (numeral : Numeral source)
    (tooLarge : greatestNumber < numeral.value) :
    readLines source = .error ⟨.numberTooLarge, numeral.offset⟩ := by
  obtain ⟨closed, pending⟩ := Scan.exists_pending numeral.ends
  have steps := numeral.steps_eq pending
  rw [if_neg (Nat.not_le.mpr tooLarge)] at steps
  rw [numeral.readLines_parts, Scan.readOn_append_of_error steps]

/-- A number that is not too large is among what is read. -/
theorem mem_of_readLines (numeral : Numeral source) {lines : List (List (Located Lexeme))}
    (scanned : readLines source = .ok lines) :
    numeral.value ≤ greatestNumber ∧ ⟨numeral.offset, numeral.lexeme⟩ ∈ lines.flatten := by
  obtain ⟨closed, pending⟩ := Scan.exists_pending numeral.ends
  have bounded : numeral.value ≤ greatestNumber := by
    apply Nat.not_lt.mp
    intro tooLarge
    rw [numeral.readLines_of_tooLarge tooLarge] at scanned
    cases scanned
  have has : (closed.push numeral.offset numeral.lexeme).Has ⟨numeral.offset, numeral.lexeme⟩ := by
    unfold Scan.Has
    rw [Scan.lexemes_push]
    exact List.mem_append_right _ List.mem_cons_self
  rw [numeral.readLines_eq pending bounded] at scanned
  exact ⟨bounded, has.mem_of_readOn scanned⟩

/-- Nothing else is read at the place of a number. -/
theorem eq_of_mem (numeral : Numeral source) {lines : List (List (Located Lexeme))}
    (scanned : readLines source = .ok lines) {lexeme : Lexeme}
    (mem : ⟨numeral.offset, lexeme⟩ ∈ lines.flatten) : lexeme = numeral.lexeme := by
  obtain ⟨closed, pending⟩ := Scan.exists_pending numeral.ends
  have within := Scan.within_of_steps numeral.reads
  have passedBefore : numeral.scan.Passed numeral.offset (· = numeral.lexeme) :=
    within.passed (Nat.lt_succ_self _)
  have passedClosed : closed.Passed numeral.offset (· = numeral.lexeme) := by
    have closes := passedBefore.close 0
    rw [pending.close_eq] at closes
    exact closes.of_ok
  have passed : (closed.push numeral.offset numeral.lexeme).Passed numeral.offset
      (· = numeral.lexeme) :=
    Scan.Holding.push passedClosed (by simp [Mode.start?]) fun _ => rfl
  rw [numeral.readLines_eq pending (numeral.mem_of_readLines scanned).1] at scanned
  exact passed.of_readOn (Nat.le_add_right _ _) scanned _ mem rfl

end Numeral

/-- A lexeme that is read at a `~` is in no string and in no comment. -/
theorem ends_of_mem {before rest : List Char} {scan : Scan}
    {lines : List (List (Located Lexeme))} {lexeme : Lexeme}
    (reads : Scan.steps {} 0 before = .ok scan)
    (scanned : readLines (before ++ '~' :: rest) = .ok lines)
    (mem : ⟨before.length + 1, lexeme⟩ ∈ lines.flatten) : scan.mode.Ends := by
  apply Classical.byContradiction
  intro inside
  obtain ⟨mode, steps, sameStart⟩ := Scan.exists_step_of_not_ends inside (before.length + 1)
  have passed : scan.Passed (before.length + 1) (fun _ => False) :=
    (Scan.within_of_steps reads).passed (Nat.lt_succ_self _)
  have passedNext : Scan.Passed (before.length + 1) (fun _ => False) { scan with mode } := by
    refine ⟨passed.lines, passed.line, ?_⟩
    rw [sameStart]
    exact passed.mode
  rw [Scan.readLines_eq_readOn, Scan.readOn_append_of_ok reads, Nat.zero_add,
    ← List.singleton_append, Scan.readOn_append_of_ok (Scan.scanner.single_of_ok steps)] at scanned
  exact passedNext.of_readOn (Nat.le_refl _) scanned _ mem rfl

/-- What is read as a number is one. -/
theorem exists_numeral {source : List Char} {lines : List (List (Located Lexeme))}
    (scanned : readLines source = .ok lines) {offset value : Nat}
    (mem : ⟨offset, .plain (.value (.number value))⟩ ∈ lines.flatten) :
    ∃ numeral : Numeral source, numeral.offset = offset ∧ numeral.value = value := by
  obtain ⟨positive, inside, shown⟩ : 1 ≤ offset ∧ offset ≤ source.length ∧
      (source.drop (offset - 1)).head? = some '~' := by
    rcases (readLines_lays scanned).1 _ mem with ⟨positive, inside, shown⟩
    exact ⟨positive, inside, shown⟩
  obtain ⟨rest, startsThere⟩ := List.head?_eq_some_iff.mp shown
  obtain ⟨digits, after, denoted, rfl, denotes, stops⟩ := exists_denotes rest
  have source_eq : source = source.take (offset - 1) ++ '~' :: (digits ++ after) := by
    rw [← startsThere, List.take_append_drop]
  have length : (source.take (offset - 1)).length + 1 = offset := by
    rw [List.length_take]
    omega
  generalize source.take (offset - 1) = before at source_eq length
  subst source_eq length
  -- What stands in front is read without a mistake, or there would be nothing to show.
  cases reads : Scan.steps {} 0 before with
  | error misplaced =>
      rw [Scan.readLines_eq_readOn, Scan.readOn_append_of_error reads] at scanned
      cases scanned
  | ok scan =>
      have ends : scan.mode.Ends := ends_of_mem reads scanned mem
      let numeral : Numeral (before ++ '~' :: (digits ++ after)) :=
        { before, digits, after, source_eq := rfl, value := denoted, denotes, stops, scan, reads,
          ends }
      have same := numeral.eq_of_mem scanned mem
      refine ⟨numeral, rfl, ?_⟩
      simpa [Numeral.lexeme] using same.symm

/-- A number that is shown as text is read as that number alone. -/
theorem read_describe {value : Nat} (bounded : value ≤ greatestNumber) :
    read (Literal.number value).describe =
      .ok { commands := [[⟨1, .plain (.value (.number value))⟩]], variableNames := #[] } := by
  have text : (Literal.number value).describe.toList = (Literal.number value).spell :=
    String.toList_ofList
  have scanned : readLines (Literal.number value).describe.toList =
      .ok [[⟨1, .plain (.value (.number value))⟩]] := by
    have between : Scan.mode {} = .between := rfl
    obtain ⟨scan, reads, pending⟩ :=
      Scan.steps_literal (show (Literal.number value).Proper from bounded) between 0
    unfold readLines
    rw [text, reads]
    change (scan.close _).bind _ = _
    rw [pending.close_eq]
    rfl
  simp only [read, scanned]
  rfl

theorem read_of_readLines_eq_error {source : String} {misplaced : Misplaced}
    (fails : readLines source.toList = .error misplaced) :
    read source = .error (.ofMisplaced source.toList misplaced) := by
  simp only [read, fails]
  rfl

/--
If a number that is written in a source denotes at most `2 ^ 63 - 1`, it becomes a lexeme with that
value at the place of its `~`, and reading goes on behind its digits; the value can be computed in
64 bits. Otherwise the source is refused for it, at the place of its `~`, and a computation in 64
bits overflows. Where a source can be scanned, its lexemes with numbers are those that are written
in it, in these places and with these values. All numbers of a script that was read are at most
`2 ^ 63 - 1`, and the text of each is read as the same number.
-/
theorem numbers_exact_or_refused (source : String) :
    (∀ numeral : Numeral source.toList, numeral.value ≤ greatestNumber →
      (∃ closed, numeral.scan.close numeral.offset = .ok closed ∧
        readLines source.toList =
          (closed.push numeral.offset (.plain (.value (.number numeral.value)))).readOn
            (numeral.offset + numeral.digits.length) numeral.after) ∧
      ∃ word, word? numeral.digits = some word ∧ word.toInt = numeral.value) ∧
    (∀ numeral : Numeral source.toList, greatestNumber < numeral.value →
      read source =
          .error (.ofMisplaced source.toList ⟨.numberTooLarge, numeral.offset⟩) ∧
        word? numeral.digits = none) ∧
    (∀ lines, readLines source.toList = .ok lines → ∀ offset value,
      ⟨offset, .plain (.value (.number value))⟩ ∈ lines.flatten ↔
        ∃ numeral : Numeral source.toList, numeral.offset = offset ∧ numeral.value = value) ∧
    ∀ script, read source = .ok script → ∀ offset value,
      ⟨offset, .plain (.value (.number value))⟩ ∈ script.commands.flatten →
        value ≤ greatestNumber ∧
          read (Literal.number value).describe =
            .ok { commands := [[⟨1, .plain (.value (.number value))⟩]], variableNames := #[] } := by
  refine ⟨?_, ?_, ?_, ?_⟩
  · intro numeral bounded
    obtain ⟨closed, pending⟩ := Scan.exists_pending numeral.ends
    refine ⟨⟨closed, pending.close_eq _, numeral.readLines_eq pending bounded⟩,
      .ofNat numeral.value, ?_, ?_⟩
    · rw [numeral.denotes.word?_eq, if_pos bounded]
    · exact Int64.toInt_ofNat_of_lt (Nat.lt_succ_of_le bounded)
  · intro numeral tooLarge
    refine ⟨read_of_readLines_eq_error (numeral.readLines_of_tooLarge tooLarge), ?_⟩
    rw [numeral.denotes.word?_eq, if_neg (Nat.not_le.mpr tooLarge)]
  · intro lines scanned offset value
    constructor
    · exact exists_numeral scanned
    · rintro ⟨numeral, rfl, rfl⟩
      exact (numeral.mem_of_readLines scanned).2
  · intro script reads offset value mem
    rcases List.mem_flatten.mp mem with ⟨command, inScript, inCommand⟩
    have bounded : value ≤ greatestNumber :=
      (wellFormed_of_read reads).proper _ (List.mem_map_of_mem inScript) _
        (List.mem_map_of_mem inCommand)
    exact ⟨bounded, read_describe bounded⟩

/-- The greatest number, with leading zeros and in both cases, and the one above it. -/
theorem numbers_exact_or_refused_at_bound :
    (∃ numeral : Numeral "(~007FFFffffFFFFffff)".toList,
      numeral.value = greatestNumber ∧ word? numeral.digits = some Int64.maxValue ∧
        (∃ lines, readLines "(~007FFFffffFFFFffff)".toList = .ok lines ∧
          ⟨2, .plain (.value (.number greatestNumber))⟩ ∈ lines.flatten) ∧
        ∃ script, read "(~007FFFffffFFFFffff)" = .ok script ∧
          ⟨2, .plain (.value (.number greatestNumber))⟩ ∈ script.commands.flatten ∧
          read (Literal.number greatestNumber).describe =
            .ok { commands := [[⟨1, .plain (.value (.number greatestNumber))⟩]],
                  variableNames := #[] }) ∧
    ∃ numeral : Numeral "(~8000000000000000g".toList,
      numeral.value = greatestNumber + 1 ∧ word? numeral.digits = none ∧
        read "(~8000000000000000g" = .error ⟨.numberTooLarge, 2, "(~8000000000"⟩ := by
  have reads : Scan.steps {} 0 ['('] = .ok { line := #[⟨1, .plain (.openBracket '(')⟩] } := rfl
  refine ⟨?_, ?_⟩
  · let numeral : Numeral "(~007FFFffffFFFFffff)".toList :=
      { before := ['('], digits := "007FFFffffFFFFffff".toList, after := [')'],
        source_eq := by decide +kernel, value := greatestNumber, denotes := by decide +kernel,
        stops := by
          intro c isHead
          cases isHead
          exact not_isHexDigit rfl
        scan := _, reads, ends := trivial }
    obtain ⟨accepts, _, lexemes, tokens⟩ := numbers_exact_or_refused "(~007FFFffffFFFFffff)"
    obtain ⟨_, word, computes, isValue⟩ := accepts numeral (Nat.le_refl _)
    have isMax : word = Int64.maxValue := Int64.toInt_inj.mp isValue
    refine ⟨numeral, rfl, isMax ▸ computes, ?_, ?_⟩
    · have succeeds : (readLines "(~007FFFffffFFFFffff)".toList).toOption.isSome := by
        decide +kernel
      rcases scanned : readLines "(~007FFFffffFFFFffff)".toList with misplaced | lines
      · rw [scanned] at succeeds
        cases succeeds
      · exact ⟨lines, rfl, (lexemes lines scanned 2 greatestNumber).mpr ⟨numeral, rfl, rfl⟩⟩
    · have token : (read "(~007FFFffffFFFFffff)").toOption.map (fun script : Script =>
          script.commands.flatten[1]?) =
            some (some ⟨2, .plain (.value (.number greatestNumber))⟩) := by
        decide +kernel
      rcases reads : read "(~007FFFffffFFFFffff)" with error | script
      · rw [reads] at token
        cases token
      · rw [reads] at token
        have mem := List.mem_of_getElem? (Option.some.inj token)
        exact ⟨script, rfl, mem, (tokens script reads 2 greatestNumber mem).2⟩
  · let numeral : Numeral "(~8000000000000000g".toList :=
      { before := ['('], digits := "8000000000000000".toList, after := ['g'],
        source_eq := by decide +kernel, value := greatestNumber + 1, denotes := by decide +kernel,
        stops := by
          intro c isHead
          cases isHead
          exact not_isHexDigit rfl
        scan := _, reads, ends := trivial }
    obtain ⟨_, refuses, _, _⟩ := numbers_exact_or_refused "(~8000000000000000g"
    obtain ⟨fails, overflows⟩ := refuses numeral (Nat.lt_succ_self _)
    have report : SyntaxError.ofMisplaced "(~8000000000000000g".toList ⟨.numberTooLarge, 2⟩ =
        ⟨.numberTooLarge, 2, "(~8000000000"⟩ := by
      decide +kernel
    exact ⟨numeral, rfl, overflows, fails.trans (congrArg Except.error report)⟩

end Script

end Esoterica
