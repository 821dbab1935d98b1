import Esoterica.Text.Blank
import Esoterica.Text.SyntaxError

/-!
# Scanners

A scanner reads characters one by one, in steps that know the offset of their character. Texts are
scanned part by part; characters that are only added to what was read are all added in the end; and
what every step keeps is kept by the whole scan.
-/

namespace Esoterica

/-- Letters, digits and the marks between them in code order are not blank. -/
theorem isBlank_of_visible {c : Char} (lower : '!'.toNat ≤ c.toNat) (upper : c.toNat ≤ '~'.toNat) :
    isBlank c = false := by
  have lower : 33 ≤ c.toNat := lower
  have upper : c.toNat ≤ 126 := upper
  simp only [isBlank, Bool.or_eq_false_iff, Bool.and_eq_false_iff, decide_eq_false_iff_not,
    beq_eq_false_iff_ne]
  omega

/-- A scan is made of steps, one for each character. -/
structure Scanner {Scan : Type} (step : Scan → Nat → Char → Except Misplaced Scan)
    (steps : Scan → Nat → List Char → Except Misplaced Scan) : Prop where
  nil : ∀ scan offset, steps scan offset [] = .ok scan
  cons : ∀ scan offset c rest, steps scan offset (c :: rest) =
    (step scan (offset + 1) c).bind fun next => steps next (offset + 1) rest

namespace Scanner

variable {Scan : Type} {step : Scan → Nat → Char → Except Misplaced Scan}
  {steps : Scan → Nat → List Char → Except Misplaced Scan} {scan next after : Scan} {offset : Nat}

theorem cons_of_ok (scanner : Scanner step steps) {c : Char} {rest : List Char}
    (reads : step scan (offset + 1) c = .ok next) :
    steps scan offset (c :: rest) = steps next (offset + 1) rest := by
  rw [scanner.cons, reads]
  rfl

theorem single_of_ok (scanner : Scanner step steps) {c : Char}
    (reads : step scan (offset + 1) c = .ok next) : steps scan offset [c] = .ok next := by
  rw [scanner.cons_of_ok reads, scanner.nil]

/-- A first step that does not fail can be split off. -/
theorem exists_of_cons_eq_ok (scanner : Scanner step steps) {c : Char} {rest : List Char}
    (reads : steps scan offset (c :: rest) = .ok after) :
    ∃ next, step scan (offset + 1) c = .ok next ∧ steps next (offset + 1) rest = .ok after := by
  rw [scanner.cons] at reads
  cases first : step scan (offset + 1) c with
  | error misplaced =>
      rw [first] at reads
      cases reads
  | ok next =>
      rw [first] at reads
      exact ⟨next, rfl, reads⟩

theorem append_of_ok (scanner : Scanner step steps) {first second : List Char}
    (reads : steps scan offset first = .ok next) :
    steps scan offset (first ++ second) = steps next (offset + first.length) second := by
  induction first generalizing scan offset with
  | nil =>
      rw [scanner.nil] at reads
      cases reads
      rfl
  | cons c rest ih =>
      rcases scanner.exists_of_cons_eq_ok reads with ⟨between, readsFirst, readsRest⟩
      rw [List.cons_append, scanner.cons_of_ok readsFirst, ih readsRest, List.length_cons,
        Nat.add_assoc, Nat.add_comm 1]

/-- A part that fails is all that is read. -/
theorem append_of_error (scanner : Scanner step steps) {first second : List Char}
    {misplaced : Misplaced} (fails : steps scan offset first = .error misplaced) :
    steps scan offset (first ++ second) = .error misplaced := by
  induction first generalizing scan offset with
  | nil =>
      rw [scanner.nil] at fails
      cases fails
  | cons c rest ih =>
      rw [scanner.cons] at fails
      rw [List.cons_append, scanner.cons]
      cases reads : step scan (offset + 1) c with
      | error other =>
          rw [reads] at fails
          exact fails
      | ok next =>
          rw [reads] at fails
          exact ih fails

/-- Where the spelling of every character adds it to what was read, a spelled text is added. -/
theorem flatMap_of_adds (scanner : Scanner step steps) (having : String → Scan)
    (spell : Char → List Char) {text : List Char}
    (adds : ∀ c ∈ text, ∀ read offset,
      steps (having read) offset (spell c) = .ok (having (read.push c)))
    (read : String) (offset : Nat) :
    steps (having read) offset (text.flatMap spell) =
      .ok (having (read ++ String.ofList text)) := by
  induction text generalizing read offset with
  | nil => simp [scanner.nil]
  | cons c rest ih =>
      have addsRest : ∀ other ∈ rest, ∀ read offset,
          steps (having read) offset (spell other) = .ok (having (read.push other)) :=
        fun other mem => adds other (by simp [mem])
      rw [List.flatMap_cons, scanner.append_of_ok (adds c (by simp) read offset), ih addsRest,
        String.push_eq_append, String.ofList_cons, String.append_assoc]

/-- Where every character is added to what was read, a text is. -/
theorem text_of_adds (scanner : Scanner step steps) (having : String → Scan) {text : List Char}
    (adds : ∀ c ∈ text, ∀ read offset, step (having read) offset c = .ok (having (read.push c)))
    (read : String) (offset : Nat) :
    steps (having read) offset text = .ok (having (read ++ String.ofList text)) := by
  have addsOne : ∀ c ∈ text, ∀ read offset,
      steps (having read) offset [c] = .ok (having (read.push c)) :=
    fun c mem read offset => scanner.single_of_ok (adds c mem read (offset + 1))
  simpa using scanner.flatMap_of_adds having ([·]) addsOne read offset

/-- What every step keeps, a scan keeps. -/
theorem keeps (scanner : Scanner step steps) {Kept : Scan → Prop}
    (kept : ∀ scan offset c next, Kept scan → step scan offset c = .ok next → Kept next)
    {text : List Char} (holds : Kept scan) (reads : steps scan offset text = .ok after) :
    Kept after := by
  induction text generalizing scan offset with
  | nil =>
      rw [scanner.nil] at reads
      cases reads
      exact holds
  | cons c rest ih =>
      rcases scanner.exists_of_cons_eq_ok reads with ⟨next, readsFirst, readsRest⟩
      exact ih (kept scan (offset + 1) c next holds readsFirst) readsRest

end Scanner

end Esoterica
