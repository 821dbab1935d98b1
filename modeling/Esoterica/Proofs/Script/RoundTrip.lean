import Esoterica.Proofs.Script.Mistakes

/-!
# Scripts read back what is printed

A script is well-formed if its commands are made of proper parts and its variables are numbered in
the order of their first appearance. Printing a well-formed script and reading it gives it back, and
every source that is accepted gives a well-formed script, without any constants left in it.
-/

namespace Esoterica

namespace Script

/-- Variables are numbered by their first appearance, of which `seen` were before. -/
inductive Numbered : (seen : Nat) → List Token → (after : Nat) → Prop where
  | nil {seen : Nat} : Numbered seen [] seen
  | plain {seen after : Nat} {item : Item} {rest : List Token}
      (others : Numbered seen rest after) : Numbered seen (.plain item :: rest) after
  | known {seen after slot : Nat} {rest : List Token} (seenBefore : slot < seen)
      (others : Numbered seen rest after) : Numbered seen (.variable slot :: rest) after
  | first {seen after : Nat} {rest : List Token}
      (others : Numbered (seen + 1) rest after) : Numbered seen (.variable seen :: rest) after

namespace Numbered

theorem le {seen after : Nat} {tokens : List Token} (numbered : Numbered seen tokens after) :
    seen ≤ after := by
  induction numbered with
  | nil => exact Nat.le_refl _
  | plain _ ih => exact ih
  | known _ _ ih => exact ih
  | first _ ih => omega

theorem append {seen between after : Nat} {first second : List Token}
    (numberedFirst : Numbered seen first between) (numberedSecond : Numbered between second after) :
    Numbered seen (first ++ second) after := by
  induction numberedFirst with
  | nil => exact numberedSecond
  | plain _ ih => exact .plain (ih numberedSecond)
  | known seenBefore _ ih => exact .known seenBefore (ih numberedSecond)
  | first _ ih => exact .first (ih numberedSecond)

theorem exists_of_append {seen after : Nat} {first second : List Token}
    (numbered : Numbered seen (first ++ second) after) :
    ∃ between, Numbered seen first between ∧ Numbered between second after := by
  induction first generalizing seen with
  | nil => exact ⟨seen, .nil, numbered⟩
  | cons token rest ih =>
      cases numbered with
      | plain others =>
          rcases ih others with ⟨between, first, second⟩
          exact ⟨between, .plain first, second⟩
      | known seenBefore others =>
          rcases ih others with ⟨between, first, second⟩
          exact ⟨between, .known seenBefore first, second⟩
      | first others =>
          rcases ih others with ⟨between, first, second⟩
          exact ⟨between, .first first, second⟩

end Numbered

def Token.Proper : Token → Prop
  | plain item => item.Proper
  | .variable _ => True

instance : (token : Token) → Decidable token.Proper
  | .plain item => inferInstanceAs (Decidable item.Proper)
  | .variable _ => inferInstanceAs (Decidable True)

/-- A script as it can be read: commands, none of them empty, and the names of its variables. -/
structure WellFormed (commands : List (List Token)) (variableNames : Array String) : Prop where
  nonempty : ∀ command ∈ commands, command ≠ []
  proper : ∀ command ∈ commands, ∀ token ∈ command, token.Proper
  numbered : Numbered 0 commands.flatten variableNames.size
  single : variableNames.toList.Nodup
  named : ∀ name ∈ variableNames, IsName name

/-- A token as it is written, variables by their names. -/
def Token.lexeme (variableNames : Array String) : Token → Lexeme
  | plain item => .plain item
  | .variable slot => .variable (variableNames[slot]?.getD "")

def print (variableNames : Array String) (commands : List (List Token)) : String :=
  printLines (commands.map (·.map (Token.lexeme variableNames)))

/-! ### Reading what was printed -/

theorem ResolvesLine.of_slot_eq {names between after : Names} {name : String} {slot : Nat}
    {rest : List Lexeme} {tokens : List Token} (slotEq : names.slot name = (slot, between))
    (others : ResolvesLine between 0 rest tokens after) :
    ResolvesLine names 0 (.variable name :: rest) (.variable slot :: tokens) after := by
  obtain ⟨rfl, rfl⟩ := Prod.mk.inj slotEq.symm
  exact .numbered others

section Table

variable {table : Array String} {names : Names} {seen : Nat}

/-- A variable that was seen keeps its number. -/
theorem Names.slot_of_known {slot : Nat} (single : table.toList.Nodup) (bounded : seen ≤ table.size)
    (slots : names.slots = (table.toList.take seen).toArray) (known : slot < seen) :
    names.slot (table[slot]?.getD "") = (slot, names) := by
  have inTable : slot < table.size := by omega
  have found : names.slots.idxOf? table[slot] = some slot := by
    rw [slots, List.idxOf?_toArray]
    apply List.idxOf?_eq_some_iff.mpr
    refine ⟨by simp; omega, by simp, ?_⟩
    intro other before same
    simp only [List.getElem_take] at same
    have sameIndex := (List.getElem_inj single).mp same
    omega
  simp [Names.slot, inTable, found]

/-- A variable that was not seen gets the next number. -/
theorem Names.exists_slot_of_new (single : table.toList.Nodup) (bounded : seen < table.size)
    (slots : names.slots = (table.toList.take seen).toArray) :
    ∃ next : Names, names.slot (table[seen]?.getD "") = (seen, next) ∧
      next.slots = (table.toList.take (seen + 1)).toArray := by
  have notFound : names.slots.idxOf? table[seen] = none := by
    rw [slots, List.idxOf?_toArray]
    apply List.idxOf?_eq_none_iff.mpr
    intro seenBefore
    rcases List.mem_take_iff_getElem.mp seenBefore with ⟨other, before, same⟩
    have sameIndex := (List.getElem_inj single).mp same
    omega
  have size : names.slots.size = seen := by
    simp [slots]
    omega
  have pushed : names.slots.push table[seen] = (table.toList.take (seen + 1)).toArray := by
    simp [slots, List.take_succ_eq_append_getElem bounded]
  exact ⟨{ names with slots := names.slots.push table[seen] },
    by simp [Names.slot, bounded, notFound, size], pushed⟩

/-- Tokens that are numbered are what their written forms are resolved to. -/
theorem Numbered.exists_resolvesLine {after : Nat} {tokens : List Token}
    (numbered : Numbered seen tokens after) (single : table.toList.Nodup)
    (bounded : after ≤ table.size) (slots : names.slots = (table.toList.take seen).toArray) :
    ∃ last : Names, ResolvesLine names 0 (tokens.map (Token.lexeme table)) tokens last ∧
      last.slots = (table.toList.take after).toArray := by
  induction numbered generalizing names with
  | nil => exact ⟨names, .nil, slots⟩
  | plain others ih =>
      rcases ih bounded slots with ⟨last, resolves, lastSlots⟩
      exact ⟨last, .plain resolves, lastSlots⟩
  | known seenBefore others ih =>
      have sameSlot := Names.slot_of_known single (Nat.le_trans others.le bounded) slots seenBefore
      rcases ih bounded slots with ⟨last, resolves, lastSlots⟩
      exact ⟨last, .of_slot_eq sameSlot resolves, lastSlots⟩
  | first others ih =>
      obtain ⟨next, newSlot, nextSlots⟩ :=
        Names.exists_slot_of_new single (Nat.le_trans others.le bounded) slots
      rcases ih bounded nextSlots with ⟨last, resolves, lastSlots⟩
      exact ⟨last, .of_slot_eq newSlot resolves, lastSlots⟩

theorem exists_resolvesLines {after : Nat} {commands : List (List Token)}
    (numbered : Numbered seen commands.flatten after) (single : table.toList.Nodup)
    (bounded : after ≤ table.size) (slots : names.slots = (table.toList.take seen).toArray) :
    ∃ last : Names, ResolvesLines names (commands.map (·.map (Token.lexeme table))) commands last ∧
      last.slots = (table.toList.take after).toArray := by
  induction commands generalizing names seen with
  | nil =>
      cases numbered
      exact ⟨names, .nil, slots⟩
  | cons command rest ih =>
      rw [List.flatten_cons] at numbered
      rcases numbered.exists_of_append with ⟨between, numberedFirst, numberedRest⟩
      rcases numberedFirst.exists_resolvesLine single (Nat.le_trans numberedRest.le bounded) slots
        with ⟨middle, first, middleSlots⟩
      rcases ih numberedRest middleSlots with ⟨last, others, lastSlots⟩
      exact ⟨last, .cons first others, lastSlots⟩

end Table

/-- A well-formed script is what is read of its printed form. -/
theorem WellFormed.exists_read_print {commands : List (List Token)} {variableNames : Array String}
    (wellFormed : WellFormed commands variableNames) :
    ∃ script, read (print variableNames commands) = .ok script ∧ script.contents = commands ∧
      script.variableNames = variableNames := by
  have proper : ∀ line ∈ commands.map (·.map (Token.lexeme variableNames)),
      line ≠ [] ∧ ∀ lexeme ∈ line, lexeme.Proper := by
    intro line mem
    rcases List.mem_map.mp mem with ⟨command, inCommands, rfl⟩
    refine ⟨by simpa using wellFormed.nonempty command inCommands, ?_⟩
    intro lexeme mem
    rcases List.mem_map.mp mem with ⟨item | slot, inCommand, rfl⟩
    · exact wellFormed.proper command inCommands _ inCommand
    · rcases found : variableNames[slot]? with _ | name
      · simp [Token.lexeme, found, Lexeme.Proper, IsName]
      · have named := wellFormed.named name (Array.mem_of_getElem? found)
        simpa [Token.lexeme, found, Lexeme.Proper] using named
  rcases readLines_printLines proper with ⟨lines, scanned, contents⟩
  obtain ⟨last, resolves, slots⟩ : ∃ last : Names,
      ResolvesLines {} (commands.map (·.map (Token.lexeme variableNames))) commands last ∧
        last.slots = (variableNames.toList.take variableNames.size).toArray :=
    exists_resolvesLines wellFormed.numbered wellFormed.single (Nat.le_refl _) (by simp)
  apply exists_read_eq_iff.mpr
  refine ⟨lines, last, scanned, ?_, ?_⟩
  · rw [contents]
    exact resolves
  · rw [slots, List.take_of_length_le (Nat.le_of_eq Array.length_toList), Array.toArray_toList]

/-! ### What was read is well-formed -/

theorem IsName.push {name : String} {c : Char} (isName : IsName name)
    (nameChar : isNameChar c = true) : IsName (name.push c) := by
  intro other mem
  simp only [String.toList_push, List.mem_append, List.mem_singleton] at mem
  rcases mem with mem | rfl
  · exact isName other mem
  · exact nameChar

def Mode.Proper : Mode → Prop
  | .name kind _ read => IsName read ∧ (kind = .key → read ≠ "")
  | .number _ value => value ≤ greatestNumber
  | _ => True

theorem NameKind.lexeme_proper {kind : NameKind} {start : Nat} {read : String}
    (proper : (Mode.name kind start read).Proper) : (kind.lexeme read).Proper := by
  rcases proper with ⟨isName, keyNonempty⟩
  cases kind with
  | key => exact ⟨keyNonempty rfl, isName⟩
  | _ => exact isName

namespace Scan

/-- All that was read is proper. -/
structure Proper (scan : Scan) : Prop where
  lines : ∀ line ∈ scan.lines, ∀ located ∈ line, located.content.Proper
  line : ∀ located ∈ scan.line, located.content.Proper
  mode : scan.mode.Proper

theorem proper_iff_holding {scan : Scan} :
    scan.Proper ↔ scan.Holding (·.content.Proper) Mode.Proper := by
  constructor
  · intro proper
    exact ⟨proper.lines, proper.line, proper.mode⟩
  · intro holding
    exact ⟨holding.lines, holding.line, holding.mode⟩

/-- What is being read is a proper lexeme when it ends. -/
theorem ended_proper {mode : Mode} {lexeme : Located Lexeme} (ended : mode.Ended lexeme)
    (proper : mode.Proper) : lexeme.content.Proper := by
  cases ended with
  | name => exact NameKind.lexeme_proper proper
  | number => exact proper
  | string | arrow => trivial
  | slash | dash => rfl

theorem keptAt_proper (offset : Nat) (c : Char) :
    KeptAt offset c (·.content.Proper) Mode.Proper (fun _ => True) where
  between := trivial
  comment := trivial
  begun mode begun := by
    cases begun with
    | key nameChar => simpa [Mode.Proper, IsName] using nameChar
    | name signed => simp [Mode.Proper, IsName, signed]
    | number => simp [Mode.Proper]
    | string | slash | dash => trivial
  grown before after grown proper := by
    cases grown with
    | name nameChar => exact ⟨proper.1.push nameChar, fun _ => by simp⟩
    | number bounded => exact bounded
    | string | escape | escaped => trivial
  ended _ _ ended proper := ended_proper ended proper
  sign lexeme sign := by
    cases sign with
    | openBracket isOpen => exact isOpen
    | closeBracket isClose => exact isClose
    | operator isOperator => exact isOperator
  invalid := trivial
  unterminated := trivial
  tooLarge _ _ _ := trivial

theorem Proper.step {scan next : Scan} {offset : Nat} {c : Char} (proper : scan.Proper)
    (reads : scan.step offset c = .ok next) : next.Proper := by
  have reading := (proper_iff_holding.mp proper).step (keptAt_proper offset c)
  rw [reads] at reading
  exact proper_iff_holding.mpr reading.of_ok

theorem Proper.endLine_of_close {scan next : Scan} {offset : Nat} (proper : scan.Proper)
    (closes : scan.close offset = .ok next) : next.endLine.Proper := by
  have reading := (proper_iff_holding.mp proper).close trivial (fun _ _ => ended_proper) offset
  rw [closes] at reading
  exact proper_iff_holding.mpr (reading.of_ok.endLine trivial)

end Scan

/-- All lexemes of an accepted source are proper. -/
theorem proper_of_readLines {source : List Char} {lines : List (List (Located Lexeme))}
    (reads : readLines source = .ok lines) :
    ∀ line ∈ lines, ∀ lexeme ∈ line.map Located.content, lexeme.Proper := by
  have start : Scan.Proper {} := ⟨by simp, by simp, trivial⟩
  simp only [readLines] at reads
  rcases scanned : Scan.steps {} 0 source with misplaced | scan
  · rw [scanned] at reads
    cases reads
  · rw [scanned] at reads
    change (scan.close _).bind _ = _ at reads
    rcases closes : scan.close source.length with misplaced | closed
    · rw [closes] at reads
      cases reads
    · rw [closes] at reads
      cases reads
      have scanProper := Scan.scanner.keeps (fun _ _ _ _ => Scan.Proper.step) start scanned
      have endProper := scanProper.endLine_of_close closes
      intro line inLines lexeme mem
      rcases List.mem_map.mp mem with ⟨located, inLine, rfl⟩
      exact endProper.lines line (Array.mem_toList_iff.mp inLines) located inLine

/-- The values of constants are proper, and the variables that were seen have different names. -/
structure Names.Proper (names : Names) : Prop where
  constants : ∀ entry ∈ names.constants, entry.2.Proper
  single : names.slots.toList.Nodup
  named : ∀ name ∈ names.slots, IsName name

theorem Names.Proper.define {names : Names} (proper : names.Proper) (name : String)
    {literal : Literal} (literalProper : literal.Proper) : (names.define name literal).Proper := by
  refine ⟨?_, proper.single, proper.named⟩
  intro entry mem
  rcases List.mem_cons.mp mem with rfl | mem
  · exact literalProper
  · exact proper.constants entry mem

/-- A variable was seen before, or it gets the next number. -/
theorem Names.Proper.slot_cases {names : Names} (proper : names.Proper) {name : String}
    (isName : IsName name) :
    (∃ slot < names.slots.size, names.slot name = (slot, names)) ∨
      ∃ next : Names, names.slot name = (names.slots.size, next) ∧ next.Proper ∧
        next.slots.size = names.slots.size + 1 := by
  rcases found : names.slots.idxOf? name with _ | slot
  · right
    have new : name ∉ names.slots.toList := by simpa using found
    refine ⟨{ names with slots := names.slots.push name }, by simp [slot, found], ?_, by simp⟩
    refine ⟨proper.constants, ?_, ?_⟩
    · simp only [Array.toList_push]
      apply List.nodup_append.mpr
      refine ⟨proper.single, by simp, ?_⟩
      rintro seen mem other isNew rfl
      rw [List.mem_singleton.mp isNew] at mem
      exact new mem
    · intro other mem
      rcases Array.mem_push.mp mem with mem | rfl
      · exact proper.named other mem
      · exact isName
  · left
    refine ⟨slot, ?_, by simp [Names.slot, found]⟩
    rw [Array.idxOf?_eq_map_finIdxOf?_val] at found
    rcases Option.map_eq_some_iff.mp found with ⟨index, -, rfl⟩
    exact index.isLt

/-- A constant stands for a proper value, and definitions do not touch variables. -/
theorem Resolves.proper {names : Names} {name : String} {rest : List Lexeme} {resolved : Resolved}
    (resolves : Resolves names name rest resolved) (namesProper : names.Proper)
    (restProper : ∀ lexeme ∈ rest, lexeme.Proper) :
    resolved.literal.Proper ∧ resolved.names.Proper ∧ resolved.names.slots = names.slots := by
  induction resolves with
  | @used name _ literal known noColon =>
      obtain ⟨before, others, split, -⟩ := List.lookup_eq_some_iff.mp known
      have mem : (name, literal) ∈ names.constants := by simp [split]
      exact ⟨namesProper.constants (name, literal) mem, namesProper, rfl⟩
  | @defined name _ literal new =>
      have literalProper : literal.Proper := restProper (.plain (.value literal)) (by simp)
      exact ⟨literalProper, namesProper.define name literalProper, rfl⟩
  | @chained name _ _ _ new value ih =>
      rcases ih fun lexeme mem => restProper lexeme (by simp [mem])
        with ⟨literalProper, innerProper, slots⟩
      exact ⟨literalProper, innerProper.define name literalProper, slots⟩

/-- What a proper line is resolved to is proper, with variables numbered. -/
theorem ResolvesLine.proper {names after : Names} {skip : Nat} {lexemes : List Lexeme}
    {tokens : List Token} (resolves : ResolvesLine names skip lexemes tokens after)
    (namesProper : names.Proper) (lexemesProper : ∀ lexeme ∈ lexemes, lexeme.Proper) :
    after.Proper ∧ (∀ token ∈ tokens, token.Proper) ∧
      Numbered names.slots.size tokens after.slots.size := by
  induction resolves with
  | nil => exact ⟨namesProper, by simp, .nil⟩
  | skipped others ih => exact ih namesProper fun lexeme mem => lexemesProper lexeme (by simp [mem])
  | @plain _ _ item _ _ others ih =>
      have itemProper : item.Proper := lexemesProper (.plain item) (by simp)
      rcases ih namesProper fun lexeme mem => lexemesProper lexeme (by simp [mem])
        with ⟨afterProper, tokensProper, numbered⟩
      exact ⟨afterProper, List.forall_mem_cons.mpr ⟨itemProper, tokensProper⟩, .plain numbered⟩
  | @numbered names _ name _ _ others ih =>
      have isName : IsName name := lexemesProper (.variable name) (by simp)
      have restProper := fun lexeme mem => lexemesProper lexeme (List.mem_cons_of_mem _ mem)
      rcases namesProper.slot_cases isName
        with ⟨slot, seen, slotEq⟩ | ⟨next, slotEq, nextProper, size⟩
      · rw [slotEq] at ih ⊢
        rcases ih namesProper restProper with ⟨afterProper, tokensProper, numbered⟩
        exact ⟨afterProper, List.forall_mem_cons.mpr ⟨trivial, tokensProper⟩, .known seen numbered⟩
      · rw [slotEq] at ih ⊢
        rcases ih nextProper restProper with ⟨afterProper, tokensProper, numbered⟩
        rw [size] at numbered
        exact ⟨afterProper, List.forall_mem_cons.mpr ⟨trivial, tokensProper⟩, .first numbered⟩
  | @constant _ _ _ _ _ resolved value others ih =>
      have restProper := fun lexeme mem => lexemesProper lexeme (List.mem_cons_of_mem _ mem)
      rcases value.proper namesProper restProper with ⟨literalProper, resolvedProper, slots⟩
      rcases ih resolvedProper restProper with ⟨afterProper, tokensProper, numbered⟩
      rw [slots] at numbered
      exact ⟨afterProper, List.forall_mem_cons.mpr ⟨literalProper, tokensProper⟩, .plain numbered⟩

theorem ResolvesLine.ne_nil {names after : Names} {lexemes : List Lexeme} {tokens : List Token}
    (resolves : ResolvesLine names 0 lexemes tokens after) (nonempty : lexemes ≠ []) :
    tokens ≠ [] := by
  cases resolves with
  | nil => contradiction
  | _ => simp

theorem ResolvesLines.proper {names after : Names} {lines : List (List Lexeme)}
    {commands : List (List Token)} (resolves : ResolvesLines names lines commands after)
    (namesProper : names.Proper)
    (linesProper : ∀ line ∈ lines, line ≠ [] ∧ ∀ lexeme ∈ line, lexeme.Proper) :
    after.Proper ∧ (∀ command ∈ commands, command ≠ [] ∧ ∀ token ∈ command, token.Proper) ∧
      Numbered names.slots.size commands.flatten after.slots.size := by
  induction resolves with
  | nil => exact ⟨namesProper, by simp, .nil⟩
  | @cons _ _ _ line _ _ _ first others ih =>
      rcases linesProper line (by simp) with ⟨nonempty, lineProper⟩
      rcases first.proper namesProper lineProper with ⟨betweenProper, tokensProper, numbered⟩
      rcases ih betweenProper fun other mem => linesProper other (by simp [mem])
        with ⟨afterProper, othersProper, othersNumbered⟩
      exact ⟨afterProper,
        List.forall_mem_cons.mpr ⟨⟨first.ne_nil nonempty, tokensProper⟩, othersProper⟩,
        numbered.append othersNumbered⟩

theorem wellFormed_of_read {source : String} {script : Script} (reads : read source = .ok script) :
    WellFormed script.contents script.variableNames := by
  rcases exists_read_eq_iff.mp ⟨script, reads, rfl, rfl⟩
    with ⟨lines, after, scanned, resolves, slots⟩
  have start : Names.Proper {} := ⟨by simp, by simp, by simp⟩
  have linesProper : ∀ line ∈ (lines.filter (!·.isEmpty)).map (·.map Located.content),
      line ≠ [] ∧ ∀ lexeme ∈ line, lexeme.Proper := by
    intro line mem
    rcases List.mem_map.mp mem with ⟨located, kept, rfl⟩
    rcases List.mem_filter.mp kept with ⟨inLines, nonempty⟩
    exact ⟨by simpa using nonempty, proper_of_readLines scanned located inLines⟩
  rcases resolves.proper start linesProper with ⟨afterProper, commandsProper, numbered⟩
  rw [← slots]
  exact ⟨fun command mem => (commandsProper command mem).1,
    fun command mem => (commandsProper command mem).2, numbered, afterProper.single,
    afterProper.named⟩

/-- Every well-formed script is read back from its printed form; and whatever source is accepted, it
gives a well-formed script, which can be printed and read again without a change. -/
theorem printing_faithful :
    (∀ (commands : List (List Token)) (variableNames : Array String),
      WellFormed commands variableNames →
        ∃ script, read (print variableNames commands) = .ok script ∧
          script.contents = commands ∧ script.variableNames = variableNames) ∧
    ∀ (source : String) (script : Script), read source = .ok script →
      WellFormed script.contents script.variableNames ∧
        ∃ again, read (print script.variableNames script.contents) = .ok again ∧
          again.contents = script.contents ∧ again.variableNames = script.variableNames :=
  ⟨fun _ _ wellFormed => wellFormed.exists_read_print,
    fun _ _ reads => ⟨wellFormed_of_read reads, (wellFormed_of_read reads).exists_read_print⟩⟩

/-- Two commands with tokens of every kind and a variable in common, another variable having an
empty name; and a source with constants that are defined in one another. -/
theorem printing_faithful_of_every_kind :
    let commands : List (List Token) :=
      [[.plain (.key "_go"), .variable 0, .plain (.operator '/'), .plain (.operator '/'),
          .plain (.value (.number greatestNumber)), .plain (.key "a"), .plain (.operator '-')],
        [.plain .arrow, .variable 1, .variable 0, .plain (.value (.text "\"\\\n//")),
          .plain (.openBracket '['), .plain (.info ""), .plain (.closeBracket ')')]]
    let source := "#a : #b : ~f $x//\n\n#b\t$y $x"
    (∃ script, read (print #["x", ""] commands) = .ok script ∧ script.contents = commands ∧
      script.variableNames = #["x", ""]) ∧
    ∃ script, read source = .ok script ∧ WellFormed script.contents script.variableNames ∧
      ∃ again, read (print script.variableNames script.contents) = .ok again ∧
        again.contents = script.contents ∧ again.variableNames = script.variableNames := by
  intro commands source
  have wellFormed : WellFormed commands #["x", ""] := by
    refine ⟨by simp [commands], by decide +kernel, ?_, by simp, by decide +kernel⟩
    exact .plain (.first (.plain (.plain (.plain (.plain (.plain (.plain (.first
      (.known (by decide) (.plain (.plain (.plain (.plain .nil)))))))))))))
  refine ⟨printing_faithful.1 commands #["x", ""] wellFormed, ?_⟩
  have accepted : (read source).isOk = true := by decide +kernel
  rcases reads : read source with error | script
  · rw [reads] at accepted
    cases accepted
  · exact ⟨script, rfl, printing_faithful.2 source script reads⟩

end Script

end Esoterica
