import Esoterica.Text.Word

/-!
# Words are maximal runs

A run of a text is a part of it without blank characters that cannot be made longer at either end.
The words of a text are all its runs, in the order in which they stand.
-/

namespace Esoterica

/-- Whether a character can be part of a word. -/
def isVisible (c : Char) : Bool :=
  !isBlank c

namespace Word

/-- The word is a run of a text whose first character has the given position. -/
structure RunOf (offset : Nat) (text : List Char) (word : Word) : Prop where
  nonempty : word.text ≠ []
  visible : ∀ c ∈ word.text, isBlank c = false
  maximal : ∃ before after, text = before ++ word.text ++ after ∧
    word.offset = offset + before.length ∧
    (∀ c, before.getLast? = some c → isBlank c = true) ∧
    ∀ c, after.head? = some c → isBlank c = true

variable {offset : Nat} {c : Char} {text rest : List Char} {word : Word}

theorem not_runOf_nil : ¬ word.RunOf offset [] := by
  rintro ⟨nonempty, _, before, after, same, _⟩
  simp_all

theorem RunOf.le_offset (run : word.RunOf offset text) : offset ≤ word.offset := by
  rcases run with ⟨_, _, before, after, _, position, _⟩
  omega

/-- A run that starts with the text is the longest visible start of the text. -/
theorem RunOf.text_eq (run : word.RunOf offset text) (first : word.offset = offset) :
    word.text = text.takeWhile isVisible := by
  rcases run with ⟨_, visible, before, after, rfl, position, _, ends⟩
  have noneBefore : before = [] := by
    apply List.eq_nil_of_length_eq_zero
    omega
  subst noneBefore
  rw [List.nil_append, List.takeWhile_append_of_pos]
  · cases after with
    | nil => simp
    | cons d more => simp [isVisible, ends d rfl]
  · intro c mem
    simp [isVisible, visible c mem]

theorem runOf_takeWhile (offset : Nat) (nonempty : text.takeWhile isVisible ≠ []) :
    RunOf offset text ⟨offset, text.takeWhile isVisible⟩ := by
  refine ⟨nonempty, ?_, [], text.dropWhile isVisible, ?_, rfl, ?_, ?_⟩
  · intro c mem
    have visible := List.all_eq_true.mp List.all_takeWhile c mem
    simpa [isVisible] using visible
  · simp
  · simp
  · intro c starts
    have stops := List.head?_dropWhile_not isVisible text
    rw [starts] at stops
    simpa [isVisible] using stops

/-- Behind a first character, a run either starts at once or was a run before. -/
theorem runOf_cons :
    word.RunOf offset (c :: rest) ↔
      (word.RunOf offset (c :: rest) ∧ word.offset = offset) ∨
        (word.RunOf (offset + 1) rest ∧ (isBlank c = false → offset + 1 < word.offset)) := by
  constructor
  · intro run
    by_cases first : word.offset = offset
    · exact .inl ⟨run, first⟩
    · rcases run with ⟨nonempty, visible, before, after, same, position, starts, ends⟩
      cases before with
      | nil => exact absurd position first
      | cons d before =>
          rcases List.cons.inj same with ⟨rfl, rfl⟩
          refine .inr ⟨⟨nonempty, visible, before, after, rfl, ?_, ?_, ends⟩, ?_⟩
          · rw [position, List.length_cons]
            omega
          · intro e last
            exact starts e (by simp [List.getLast?_cons, last])
          · -- A visible character alone in front would have been part of the run.
            intro visibleFirst
            cases before with
            | nil => simp [starts c rfl] at visibleFirst
            | cons e before =>
                rw [position, List.length_cons, List.length_cons]
                omega
  · rintro (⟨run, _⟩ | ⟨⟨nonempty, visible, before, after, rfl, position, starts, ends⟩, later⟩)
    · exact run
    · refine ⟨nonempty, visible, c :: before, after, rfl, ?_, ?_, ends⟩
      · rw [position, List.length_cons]
        omega
      · intro e last
        cases before with
        | nil =>
            have same : c = e := Option.some.inj last
            rw [← same]
            cases blank : isBlank c with
            | true => rfl
            | false =>
                have := later blank
                rw [List.length_nil] at position
                omega
        | cons d before =>
            apply starts e
            simpa [List.getLast?_cons] using last

theorem runOf_cons_of_blank (blank : isBlank c = true) :
    word.RunOf offset (c :: rest) ↔ word.RunOf (offset + 1) rest := by
  rw [runOf_cons]
  constructor
  · rintro (⟨run, first⟩ | ⟨run, _⟩)
    · refine absurd (run.text_eq first) ?_
      rw [List.takeWhile_cons_of_neg (by simp [isVisible, blank])]
      exact run.nonempty
    · exact run
  · intro run
    exact .inr ⟨run, by simp [blank]⟩

theorem runOf_cons_of_visible (visible : isBlank c = false) :
    word.RunOf offset (c :: rest) ↔
      word = ⟨offset, c :: rest.takeWhile isVisible⟩ ∨
        (word.RunOf (offset + 1) rest ∧ offset + 1 < word.offset) := by
  have taken : (c :: rest).takeWhile isVisible = c :: rest.takeWhile isVisible :=
    List.takeWhile_cons_of_pos (by simp [isVisible, visible])
  rw [runOf_cons, ← taken]
  constructor
  · rintro (⟨run, first⟩ | ⟨run, later⟩)
    · left
      have same := run.text_eq first
      cases word
      cases first
      cases same
      rfl
    · exact .inr ⟨run, later visible⟩
  · rintro (rfl | ⟨run, later⟩)
    · exact .inl ⟨runOf_takeWhile offset (by simp [taken]), rfl⟩
    · exact .inr ⟨run, fun _ => later⟩

theorem prepend_cases (offset : Nat) (c : Char) (later : List Word) :
    (∃ first more, later = first :: more ∧ first.offset = offset + 1 ∧
      prepend offset c later = ⟨offset, c :: first.text⟩ :: more) ∨
    prepend offset c later = ⟨offset, [c]⟩ :: later ∧
      ∀ first ∈ later.head?, first.offset ≠ offset + 1 := by
  cases later with
  | nil => exact .inr ⟨rfl, by simp⟩
  | cons first more =>
      by_cases joins : first.offset = offset + 1
      · exact .inl ⟨first, more, rfl, joins, if_pos joins⟩
      · refine .inr ⟨if_neg joins, ?_⟩
        intro word isFirst
        rcases Option.some.inj isFirst with rfl
        exact joins

theorem le_offset_of_mem_split (member : word ∈ split offset text) : offset ≤ word.offset := by
  induction text generalizing offset word with
  | nil => cases member
  | cons c rest ih =>
      rw [split] at member
      have later : ∀ word ∈ split (offset + 1) rest, offset ≤ word.offset := by
        intro word member
        have := ih member
        omega
      grind [prepend_cases offset c (split (offset + 1) rest)]

/-- Words stand in the order of their positions. -/
theorem pairwise_split (offset : Nat) (text : List Char) :
    (split offset text).Pairwise (·.offset < ·.offset) := by
  induction text generalizing offset with
  | nil => exact .nil
  | cons c rest ih =>
      have sorted := ih (offset + 1)
      have behind : ∀ word ∈ split (offset + 1) rest, offset < word.offset :=
        fun word => le_offset_of_mem_split
      rw [split]
      split
      · exact sorted
      · rcases prepend_cases offset c (split (offset + 1) rest) with
          ⟨first, more, later, _, joined⟩ | ⟨alone, _⟩
        · rw [later] at sorted behind
          rw [joined]
          apply List.Pairwise.cons
          · intro word member
            exact behind word (List.mem_cons_of_mem _ member)
          · exact sorted.of_cons
        · rw [alone]
          exact sorted.cons behind

/-- What a visible character in front does to the runs of the text behind it. -/
theorem mem_prepend_iff {later : List Word}
    (runs : ∀ word, word ∈ later ↔ word.RunOf (offset + 1) rest)
    (sorted : later.Pairwise (·.offset < ·.offset)) :
    word ∈ prepend offset c later ↔
      word = ⟨offset, c :: rest.takeWhile isVisible⟩ ∨
        (word.RunOf (offset + 1) rest ∧ offset + 1 < word.offset) := by
  rcases prepend_cases offset c later with ⟨first, more, rfl, next, joined⟩ | ⟨alone, notNext⟩
  · have firstRun := (runs first).mp List.mem_cons_self
    have behind := (List.pairwise_cons.mp sorted).1
    rw [joined, ← firstRun.text_eq next, List.mem_cons, ← runs, List.mem_cons]
    grind
  · have behind : ∀ word ∈ later, offset + 1 < word.offset := by
      have least : ∀ word ∈ later, offset + 1 ≤ word.offset :=
        fun word member => ((runs word).mp member).le_offset
      cases later with
      | nil => simp
      | cons first more =>
          have notFirst := notNext first rfl
          have behind := (List.pairwise_cons.mp sorted).1
          grind
    -- No run starts right behind the character, which therefore stands alone.
    have apart : rest.takeWhile isVisible = [] := by
      apply Decidable.byContradiction
      intro joins
      have := behind _ ((runs _).mpr (runOf_takeWhile (offset + 1) joins))
      simp at this
    rw [alone, apart, List.mem_cons, ← runs]
    grind

/-- The words of a text are its runs. -/
theorem mem_split_iff : word ∈ split offset text ↔ word.RunOf offset text := by
  induction text generalizing offset word with
  | nil => simp [split, not_runOf_nil]
  | cons c rest ih =>
      cases blank : isBlank c with
      | true => rw [split, if_pos blank, runOf_cons_of_blank blank, ih]
      | false =>
          rw [split, if_neg (by simp [blank]), runOf_cons_of_visible blank]
          exact mem_prepend_iff (fun word => ih) (pairwise_split _ _)

end Word

end Esoterica
