import Esoterica.Proofs.Script.Mistakes

/-!
# Where lexemes stand

The offset of a lexeme is the place of its first character, counted from one. Lexemes are found in
the order in which they stand in the source, and at its offset the source shows what a lexeme is: a
name as far as it goes, or the character that tells a value, an operator or a bracket.

While a source is scanned it falls into three parts: what lies before the lexeme that is being read,
the characters of that lexeme so far, and what has not been looked at. A name ends only where the
last of these goes on with a character that is part of no name.
-/

namespace Esoterica

namespace Script

/-- What stands in front of a name of this kind. -/
def NameKind.sign : NameKind → List Char
  | key => []
  | .variable => ['$']
  | constant => ['#']
  | info => ['@']

/-- The first character of a literal. -/
def Literal.sign : Literal → Char
  | number _ => '~'
  | text _ => '"'

/-- A text starts with a sign and, right behind it, with this name and no longer one. -/
def NamedBy (sign : List Char) (name : String) (text : List Char) : Prop :=
  ∃ rest, text = sign ++ rest ∧ rest.takeWhile isNameChar = name.toList

/-- A text shows the item at its start. -/
def Item.ShownBy (text : List Char) : Item → Prop
  | key name => name ≠ "" ∧ NamedBy [] name text
  | value literal => text.head? = some literal.sign
  | info name => NamedBy ['@'] name text
  | operator symbol => text.head? = some symbol
  | openBracket bracket | closeBracket bracket => text.head? = some bracket
  | arrow => ['-', '>'] <+: text

/-- A text shows the lexeme at its start. -/
def Lexeme.ShownBy (text : List Char) : Lexeme → Prop
  | plain item => item.ShownBy text
  | .variable name => NamedBy ['$'] name text
  | constant name => NamedBy ['#'] name text

/-- The offset is that of a character, and from there on the source shows the content. -/
structure Located.StandsIn {α : Type} (source : List Char) (shows : List Char → α → Prop)
    (located : Located α) : Prop where
  positive : 1 ≤ located.offset
  inside : located.offset ≤ source.length
  shown : shows (source.drop (located.offset - 1)) located.content

theorem Item.ShownBy.ne_nil {text : List Char} {item : Item} (shown : item.ShownBy text) :
    text ≠ [] := by
  rintro rfl
  cases item with
  | key name =>
      rcases shown with ⟨nonempty, rest, isEmpty, isName⟩
      cases isEmpty
      exact nonempty (String.toList_eq_nil_iff.mp isName.symm)
  | info name =>
      rcases shown with ⟨rest, isEmpty, _⟩
      cases isEmpty
  | value | operator | openBracket | closeBracket => cases shown
  | arrow => cases List.prefix_nil.mp shown

theorem Lexeme.ShownBy.ne_nil {text : List Char} {lexeme : Lexeme} (shown : lexeme.ShownBy text) :
    text ≠ [] := by
  rcases lexeme with item | name | name
  · exact Item.ShownBy.ne_nil shown
  · rcases shown with ⟨rest, rfl, _⟩
    exact List.cons_ne_nil _ _
  · rcases shown with ⟨rest, rfl, _⟩
    exact List.cons_ne_nil _ _

theorem standsIn_of_shownBy {source before text : List Char} {lexeme : Lexeme}
    (source_eq : source = before ++ text) (shown : lexeme.ShownBy text) :
    Located.StandsIn source Lexeme.ShownBy ⟨before.length + 1, lexeme⟩ := by
  subst source_eq
  have nonempty := List.length_pos_iff.mpr shown.ne_nil
  refine ⟨Nat.succ_pos _, ?_, ?_⟩
  · rw [List.length_append]
    exact Nat.add_le_add_left nonempty _
  · simpa using shown

/-- A name that is followed by no further character of a name is all that is taken. -/
theorem namedBy_of_stops (sign : List Char) {rest : List Char} {name : String}
    (isName : IsName name) (stops : ∀ c ∈ rest.head?, isNameChar c = false) :
    NamedBy sign name (sign ++ name.toList ++ rest) := by
  refine ⟨name.toList ++ rest, List.append_assoc _ _ _, ?_⟩
  have nothing : rest.takeWhile isNameChar = [] := by
    cases rest with
    | nil => rfl
    | cons c more => simp [stops c rfl]
  rw [List.takeWhile_append_of_pos isName, nothing, List.append_nil]

theorem NameKind.sign_append_ne_nil {kind : NameKind} {name : String}
    (nonempty : kind = .key → name ≠ "") : kind.sign ++ name.toList ≠ [] := by
  cases kind with
  | key => exact mt String.toList_eq_nil_iff.mp (nonempty rfl)
  | «variable» | constant | info => exact List.cons_ne_nil _ _

theorem NameKind.shownBy_lexeme {kind : NameKind} {name : String} {text : List Char}
    (named : NamedBy kind.sign name text) (nonempty : kind = .key → name ≠ "") :
    (kind.lexeme name).ShownBy text := by
  cases kind with
  | key => exact ⟨nonempty rfl, named⟩
  | «variable» | constant | info => exact named

/-- The characters of the lexeme that is being read, from its start on; none behind a gap. -/
inductive Mode.Spelt (start : Nat) : List Char → Mode → Prop where
  | between : Spelt start [] .between
  | comment {gap : List Char} : Spelt start gap .comment
  | name {kind : NameKind} {read : String} (isName : IsName read)
      (nonempty : kind = .key → read ≠ "") :
      Spelt start (kind.sign ++ read.toList) (.name kind start read)
  | number {value : Nat} {digits : List Char} : Spelt start ('~' :: digits) (.number start value)
  | string {read : String} {more : List Char} : Spelt start ('"' :: more) (.string start read)
  | stringEscape {read : String} {more : List Char} :
      Spelt start ('"' :: more) (.stringEscape start read)
  | slash : Spelt start ['/'] (.slash start)
  | dash : Spelt start ['-'] (.dash start)

namespace Scan

/-- All lexemes so far, in the order in which they were read. -/
def lexemes (scan : Scan) : List (Located Lexeme) :=
  scan.lines.toList.flatten ++ scan.line.toList

theorem lexemes_push (scan : Scan) (offset : Nat) (lexeme : Lexeme) :
    (scan.push offset lexeme).lexemes = scan.lexemes ++ [⟨offset, lexeme⟩] := by
  simp [lexemes, push]

theorem lexemes_endLine (scan : Scan) : scan.endLine.lexemes = scan.lexemes := by
  simp [lexemes, endLine]

/--
The source is cut in three: the lexemes start in the first part and stand there in order, the second
is what is being read, and the third has not been looked at.
-/
structure Lays (source before part rest : List Char) (scan : Scan) : Prop where
  source_eq : source = before ++ (part ++ rest)
  stands : ∀ located ∈ scan.lexemes, located.StandsIn source Lexeme.ShownBy
  ordered : (scan.lexemes.map Located.offset).Pairwise (· < ·)
  behind : ∀ located ∈ scan.lexemes, located.offset ≤ before.length
  spelt : scan.mode.Spelt (before.length + 1) part

namespace Lays

variable {source before part rest : List Char} {scan next : Scan} {c : Char} {lexeme : Lexeme}

/-- The next character is part of what is being read. -/
theorem grow (lays : scan.Lays source before part (c :: rest)) {mode : Mode}
    (spelt : mode.Spelt (before.length + 1) (part ++ [c])) :
    Lays source before (part ++ [c]) rest { scan with mode } := by
  refine ⟨?_, lays.stands, lays.ordered, lays.behind, spelt⟩
  rw [lays.source_eq, List.append_assoc, List.singleton_append]

/-- What is passed, together with what was being read, belongs to no lexeme. -/
theorem skip (lays : scan.Lays source before part rest) {passed nextRest : List Char}
    (same : part ++ rest = passed ++ nextRest) (kept : next.lexemes = scan.lexemes)
    (between : next.mode = .between) : next.Lays source (before ++ passed) [] nextRest := by
  refine ⟨?_, ?_, ?_, ?_, ?_⟩
  · rw [lays.source_eq, same, List.append_assoc, List.nil_append]
  · rw [kept]
    exact lays.stands
  · rw [kept]
    exact lays.ordered
  · intro located mem
    rw [kept] at mem
    rw [List.length_append]
    exact Nat.le_trans (lays.behind located mem) (Nat.le_add_right _ _)
  · rw [between]
    exact .between

/-- A lexeme is complete when it is shown by what was being read and what follows. -/
theorem push (lays : scan.Lays source before part rest) {passed nextRest : List Char}
    (same : part ++ rest = passed ++ nextRest) (nonempty : passed ≠ [])
    (shown : lexeme.ShownBy (part ++ rest)) :
    (scan.push (before.length + 1) lexeme).Lays source (before ++ passed) [] nextRest := by
  have positive := List.length_pos_iff.mpr nonempty
  refine ⟨?_, ?_, ?_, ?_, .between⟩
  · rw [lays.source_eq, same, List.append_assoc, List.nil_append]
  · rw [lexemes_push]
    intro located mem
    rcases List.mem_append.mp mem with mem | mem
    · exact lays.stands located mem
    · rw [List.mem_singleton.mp mem]
      exact standsIn_of_shownBy lays.source_eq shown
  · rw [lexemes_push, List.map_append, List.pairwise_append]
    refine ⟨lays.ordered, List.pairwise_singleton _ _, ?_⟩
    intro earlier mem later isNew
    rcases List.mem_map.mp mem with ⟨located, inScan, rfl⟩
    rw [List.mem_singleton.mp isNew]
    exact Nat.lt_succ_of_le (lays.behind located inScan)
  · rw [lexemes_push]
    intro located mem
    rw [List.length_append]
    rcases List.mem_append.mp mem with mem | mem
    · exact Nat.le_trans (lays.behind located mem) (Nat.le_add_right _ _)
    · rw [List.mem_singleton.mp mem]
      exact Nat.add_le_add_left positive _

/-- What ends before the next character is complete. -/
theorem ended (lays : scan.Lays source before part rest) (nonempty : part ≠ [])
    (shown : lexeme.ShownBy (part ++ rest)) :
    (scan.push (before.length + 1) lexeme).Lays source (before ++ part) [] rest :=
  lays.push rfl nonempty shown

/-- What ends with the next character is complete. -/
theorem completed (lays : scan.Lays source before part (c :: rest))
    (shown : lexeme.ShownBy (part ++ c :: rest)) :
    (scan.push (before.length + 1) lexeme).Lays source (before ++ (part ++ [c])) [] rest :=
  lays.push (by simp) (by simp) shown

end Lays

/-- The characters up to an offset were read, and what is left of the source is the rest. -/
def Follows (source : List Char) (offset : Nat) (rest : List Char) (scan : Scan) : Prop :=
  ∃ before part, before.length + part.length = offset ∧ scan.Lays source before part rest

namespace Lays

variable {source before part rest : List Char} {scan : Scan} {c : Char} {lexeme : Lexeme}

theorem stepBetween (lays : scan.Lays source before [] (c :: rest)) :
    Reading (Follows source (before.length + 1) rest) (fun _ => True)
      (scan.stepBetween (before.length + 1) c) := by
  have passes {next : Scan} (kept : next.lexemes = scan.lexemes)
      (between : next.mode = .between) : next.Follows source (before.length + 1) rest :=
    ⟨before ++ [c], [], by simp, lays.skip rfl kept between⟩
  have begins {mode : Mode} (spelt : mode.Spelt (before.length + 1) [c]) :
      Follows source (before.length + 1) rest { scan with mode } :=
    ⟨before, [c], rfl, lays.grow spelt⟩
  have completes {lexeme : Lexeme} (shown : lexeme.ShownBy (c :: rest)) :
      (scan.push (before.length + 1) lexeme).Follows source (before.length + 1) rest :=
    ⟨before ++ [c], [], by simp, lays.completed shown⟩
  have named {kind : NameKind} (sign : kind.sign = [c]) (signed : kind ≠ .key) :
      Mode.Spelt (before.length + 1) [c] (.name kind (before.length + 1) "") := by
    have spelt : Mode.Spelt (before.length + 1) (kind.sign ++ "".toList)
        (.name kind (before.length + 1) "") :=
      .name (by simp [IsName]) fun isKey => absurd isKey signed
    rw [sign] at spelt
    exact spelt
  unfold Scan.stepBetween
  split
  · exact .ok (passes scan.lexemes_endLine rfl)
  split
  · exact .ok (passes rfl rfl)
  split
  · rename_i nameChar
    refine .ok (begins ?_)
    have spelt : Mode.Spelt (before.length + 1) (NameKind.key.sign ++ c.toString.toList)
        (.name .key (before.length + 1) c.toString) :=
      .name (by simpa [IsName] using nameChar) (by simp)
    simpa [NameKind.sign] using spelt
  split
  · exact .ok (begins .string)
  · exact .ok (begins .number)
  · exact .ok (begins (named rfl (by simp)))
  · exact .ok (begins (named rfl (by simp)))
  · exact .ok (begins (named rfl (by simp)))
  · exact .ok (begins .slash)
  · exact .ok (begins .dash)
  · exact .ok (completes rfl)
  · exact .ok (completes rfl)
  · exact .ok (completes rfl)
  · exact .ok (completes rfl)
  · split
    · exact .ok (completes rfl)
    · exact .error trivial

/-- What is being read ends here, unless a name goes on. -/
theorem close (lays : scan.Lays source before part rest)
    (stops : ∀ kind start read, scan.mode = .name kind start read →
      ∀ c ∈ rest.head?, isNameChar c = false) (offset : Nat) :
    Reading (Lays source (before ++ part) [] rest) (fun _ => True) (scan.close offset) := by
  have spelt := lays.spelt
  unfold Scan.close
  cases mode : scan.mode with
  | between | comment => exact .ok (lays.skip rfl rfl rfl)
  | name kind start read =>
      rw [mode] at spelt
      cases spelt with
      | name isName nonempty =>
          have named := namedBy_of_stops kind.sign isName (stops _ _ _ mode)
          exact .ok (lays.ended (NameKind.sign_append_ne_nil nonempty)
            (NameKind.shownBy_lexeme named nonempty))
  | number start value =>
      rw [mode] at spelt
      cases spelt
      exact .ok (lays.ended (List.cons_ne_nil _ _) rfl)
  | slash start | dash start =>
      rw [mode] at spelt
      cases spelt
      exact .ok (lays.ended (List.cons_ne_nil _ _) rfl)
  | string | stringEscape => exact .error trivial

theorem closeAndStep (lays : scan.Lays source before part (c :: rest))
    (stops : ∀ kind start read, scan.mode = .name kind start read → isNameChar c = false) :
    Reading (Follows source (before.length + part.length + 1) rest) (fun _ => True)
      (scan.closeAndStep (before.length + part.length + 1) c) := by
  have closes : ∀ kind start read, scan.mode = .name kind start read →
      ∀ next ∈ (c :: rest).head?, isNameChar next = false := by
    intro kind start read mode next isNext
    cases isNext
    exact stops kind start read mode
  apply (lays.close closes _).bind
  intro closed laysToo
  have stepped := laysToo.stepBetween
  rw [List.length_append] at stepped
  exact stepped

theorem step (lays : scan.Lays source before part (c :: rest)) :
    Reading (Follows source (before.length + part.length + 1) rest) (fun _ => True)
      (scan.step (before.length + part.length + 1) c) := by
  have spelt := lays.spelt
  have grows {mode : Mode} (spelt : mode.Spelt (before.length + 1) (part ++ [c])) :
      Follows source (before.length + part.length + 1) rest { scan with mode } :=
    ⟨before, part ++ [c], by simp [Nat.add_assoc], lays.grow spelt⟩
  have completes {lexeme : Lexeme} (shown : lexeme.ShownBy (part ++ c :: rest)) :
      (scan.push (before.length + 1) lexeme).Follows source (before.length + part.length + 1)
        rest :=
    ⟨before ++ (part ++ [c]), [], by simp [Nat.add_assoc], lays.completed shown⟩
  -- A slash or a dash that is followed by something else is an operator.
  have pushes {lexeme : Lexeme} (nonempty : part ≠ [])
      (shown : lexeme.ShownBy (part ++ c :: rest)) :
      Reading (Follows source (before.length + part.length + 1) rest) (fun _ => True)
        ((scan.push (before.length + 1) lexeme).stepBetween
          (before.length + part.length + 1) c) := by
    have stepped := (lays.ended nonempty shown).stepBetween
    rwa [List.length_append] at stepped
  unfold Scan.step
  cases mode : scan.mode with
  | between =>
      rw [mode] at spelt
      cases spelt
      exact lays.stepBetween
  | name kind start read =>
      rw [mode] at spelt
      cases spelt with
      | name isName nonempty =>
          simp only
          split
          · rename_i nameChar
            have longer : IsName (read.push c) := by
              intro other mem
              rw [String.toList_push] at mem
              rcases List.mem_append.mp mem with mem | mem
              · exact isName other mem
              · rw [List.mem_singleton.mp mem]
                exact nameChar
            refine .ok (grows ?_)
            rw [List.append_assoc, ← String.toList_push]
            exact .name longer fun _ => by simp
          · rename_i noName
            apply lays.closeAndStep
            intro _ _ _ _
            exact Bool.eq_false_iff.mpr noName
  | number start value =>
      rw [mode] at spelt
      cases spelt
      simp only
      split
      · split
        · exact .error trivial
        · exact .ok (grows .number)
      · apply lays.closeAndStep
        simp [mode]
  | string start read =>
      rw [mode] at spelt
      cases spelt
      simp only
      split
      · exact .ok (completes rfl)
      · exact .ok (grows .stringEscape)
      · exact .error trivial
      · exact .ok (grows .string)
  | stringEscape start read =>
      rw [mode] at spelt
      cases spelt
      simp only
      split
      · exact .ok (grows .string)
      · exact .error trivial
      · exact .ok (grows .string)
  | slash start =>
      rw [mode] at spelt
      cases spelt
      simp only
      split
      · exact .ok (grows .comment)
      · exact pushes (List.cons_ne_nil _ _) rfl
  | dash start =>
      rw [mode] at spelt
      cases spelt
      simp only
      split
      · rename_i isAngle
        subst isAngle
        exact .ok (completes (List.prefix_append ['-', '>'] rest))
      · exact pushes (List.cons_ne_nil _ _) rfl
  | comment =>
      simp only
      split
      · exact .ok ⟨before ++ (part ++ [c]), [], by simp [Nat.add_assoc],
          lays.skip (by simp) scan.lexemes_endLine rfl⟩
      · have stays := grows .comment
        rw [← mode] at stays
        exact .ok stays

end Lays

theorem Follows.steps {source rest : List Char} {offset : Nat} {scan : Scan}
    (follows : scan.Follows source offset rest) :
    Reading (Follows source (offset + rest.length) []) (fun _ => True)
      (scan.steps offset rest) := by
  induction rest generalizing scan offset with
  | nil => exact .ok follows
  | cons c rest ih =>
      rcases follows with ⟨before, part, rfl, lays⟩
      rw [scanner.cons]
      apply lays.step.bind
      intro next followsToo
      have later := ih followsToo
      rwa [Nat.add_assoc, Nat.add_comm 1] at later

end Scan

/-- Lexemes stand in the source where their offsets say, and in order. -/
theorem readLines_lays {source : List Char} {lines : List (List (Located Lexeme))}
    (scanned : readLines source = .ok lines) :
    (∀ located ∈ lines.flatten, located.StandsIn source Lexeme.ShownBy) ∧
      (lines.flatten.map Located.offset).Pairwise (· < ·) := by
  have fresh : Scan.Follows source 0 source {} :=
    ⟨[], [], rfl, rfl, by simp [Scan.lexemes], by simp [Scan.lexemes], by simp [Scan.lexemes],
      .between⟩
  have reads : Reading (fun lines : List (List (Located Lexeme)) =>
      (∀ located ∈ lines.flatten, located.StandsIn source Lexeme.ShownBy) ∧
        (lines.flatten.map Located.offset).Pairwise (· < ·)) (fun _ => True)
      (readLines source) := by
    apply fresh.steps.bind
    rintro scan ⟨before, part, _, lays⟩
    apply (lays.close (by simp) source.length).bind
    intro closed laysToo
    have flat : closed.endLine.lines.toList.flatten = closed.lexemes := by
      rw [← closed.lexemes_endLine]
      simp [Scan.lexemes, Scan.endLine]
    refine .ok ⟨?_, ?_⟩
    · rw [flat]
      exact laysToo.stands
    · rw [flat]
      exact laysToo.ordered
  rw [scanned] at reads
  exact reads.of_ok

end Script

end Esoterica
