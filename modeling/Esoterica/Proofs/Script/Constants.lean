import Esoterica.Proofs.Script.Resolving

/-!
# Definitions of constants

A constant is defined where its name stands before a colon. The value may be a constant that is
defined in turn, which makes a chain of definitions. A name that has a value cannot be defined
again; but inside a chain no name has its value yet, so a chain may define a name more than once.
Nowhere else is there a second definition: two definitions of one name belong to one chain.
-/

namespace Esoterica

namespace Script

/-- The rest of a line from the definition of a constant on. -/
def Defines (name : String) (definition : List Lexeme) : Prop :=
  ∃ rest, definition = .constant name :: colon :: rest

/-- A definition is another one or is found in its value, at any depth. -/
inductive Nested (inner : List Lexeme) : (outer : List Lexeme) → Prop where
  | self : Nested inner inner
  | value {name : String} {rest : List Lexeme} (nested : Nested inner rest) :
      Nested inner (.constant name :: colon :: rest)

/-- Of two definitions in one chain, one is in the value of the other. -/
theorem Nested.total {first second chain : List Lexeme} (nestedFirst : Nested first chain)
    (nestedSecond : Nested second chain) : Nested first second ∨ Nested second first := by
  induction nestedFirst with
  | self => exact Or.inr nestedSecond
  | value nested ih =>
      cases nestedSecond with
      | self => exact Or.inl (.value nested)
      | value nestedSecond => exact ih nestedSecond

/-- A definition in a line starts with its first lexeme or behind it. -/
theorem Defines.suffix_cons_cases {name : String} {definition rest : List Lexeme} {lexeme : Lexeme}
    (defines : Defines name definition) (suffix : definition <:+ lexeme :: rest) :
    (definition = lexeme :: rest ∧ lexeme = .constant name ∧ rest.head? = some colon) ∨
      definition <:+ rest := by
  rcases List.suffix_cons_iff.mp suffix with same | suffix
  · rcases defines with ⟨others, rfl⟩
    cases same
    exact Or.inl ⟨rfl, rfl, rfl⟩
  · exact Or.inr suffix

/-- No definition starts with a lexeme that is no constant. -/
theorem Defines.suffix_of_plain {name : String} {definition rest : List Lexeme} {item : Item}
    (defines : Defines name definition) (suffix : definition <:+ .plain item :: rest) :
    definition <:+ rest := by
  rcases defines.suffix_cons_cases suffix with ⟨_, isConstant, _⟩ | suffix
  · cases isConstant
  · exact suffix

namespace Names

/-- The names of the constants that have a value. -/
def defined (names : Names) : List String :=
  names.constants.map Prod.fst

@[simp]
theorem defined_define (names : Names) (name : String) (literal : Literal) :
    (names.define name literal).defined = name :: names.defined :=
  rfl

theorem defined_slot (names : Names) (name : String) :
    (names.slot name).2.defined = names.defined := by
  simp only [slot]
  split
  · rfl
  · rfl

theorem lookup_eq_none_iff {names : Names} {name : String} :
    names.constants.lookup name = none ↔ name ∉ names.defined := by
  simp only [defined, List.lookup_eq_none_iff, bne_iff_ne, List.mem_map, not_exists, not_and]
  constructor
  · rintro differs entry mem rfl
    exact differs entry mem rfl
  · rintro absent entry mem rfl
    exact absent entry mem rfl

end Names

/-- A definition behind a constant, or starting with it, is either behind all that the constant uses
or in the chain of the constant; in the chain, names get a value that they did not have. -/
theorem Resolves.suffix_cases {names : Names} {name other : String} {rest definition : List Lexeme}
    {resolved : Resolved} (resolves : Resolves names name rest resolved)
    (suffix : definition <:+ .constant name :: rest) (defines : Defines other definition) :
    definition <:+ rest.drop resolved.used ∨
      (Nested definition (.constant name :: rest) ∧ other ∉ names.defined ∧
        other ∈ resolved.names.defined) := by
  induction resolves with
  | used known noColon =>
      left
      rcases defines.suffix_cons_cases suffix with ⟨_, _, startsWithColon⟩ | suffix
      · exact absurd startsWithColon noColon
      · exact suffix
  | defined new =>
      rcases defines.suffix_cons_cases suffix with ⟨rfl, isConstant, _⟩ | suffix
      · cases isConstant
        exact Or.inr ⟨.self, Names.lookup_eq_none_iff.mp new, by simp⟩
      · left
        exact defines.suffix_of_plain (defines.suffix_of_plain suffix)
  | chained new value ih =>
      rcases defines.suffix_cons_cases suffix with ⟨rfl, isConstant, _⟩ | suffix
      · cases isConstant
        exact Or.inr ⟨.self, Names.lookup_eq_none_iff.mp new, by simp⟩
      · rcases ih (defines.suffix_of_plain suffix) with behind | ⟨nested, isNew, hasValue⟩
        · exact Or.inl behind
        · exact Or.inr ⟨.value nested, isNew, by simp [hasValue]⟩

theorem Resolves.defined_subset {names : Names} {name : String} {rest : List Lexeme}
    {resolved : Resolved} (resolves : Resolves names name rest resolved) :
    names.defined ⊆ resolved.names.defined := by
  induction resolves with
  | used => exact List.Subset.refl _
  | defined => exact List.subset_cons_self _ _
  | chained _ _ ih => exact List.subset_cons_of_subset _ ih

/-- The definitions in a part of a line give values to names that had none before and have one after
it, and two of one name are in one chain. -/
structure InChains (before after : List String) (part : List Lexeme) : Prop where
  subset : before ⊆ after
  new : ∀ {name definition}, Defines name definition → definition <:+ part → name ∉ before
  valued : ∀ {name definition}, Defines name definition → definition <:+ part → name ∈ after
  nested : ∀ {name first second}, Defines name first → Defines name second → first <:+ part →
    second <:+ part → Nested first second ∨ Nested second first

namespace InChains

variable {before after : List String} {lexeme : Lexeme} {rest : List Lexeme}

theorem nil (names : List String) : InChains names names [] := by
  have impossible {name : String} {definition : List Lexeme} (defines : Defines name definition) :
      ¬ definition <:+ [] := by
    rcases defines with ⟨others, rfl⟩
    simp
  exact ⟨List.Subset.refl _, fun defines suffix => absurd suffix (impossible defines),
    fun defines suffix => absurd suffix (impossible defines),
    fun defines _ suffix _ => absurd suffix (impossible defines)⟩

/-- A lexeme that is no constant adds nothing. -/
theorem cons (inChains : InChains before after rest)
    (noConstant : ∀ name, lexeme ≠ .constant name) : InChains before after (lexeme :: rest) := by
  have behind {name : String} {definition : List Lexeme} (defines : Defines name definition)
      (suffix : definition <:+ lexeme :: rest) : definition <:+ rest := by
    rcases defines.suffix_cons_cases suffix with ⟨_, isConstant, _⟩ | suffix
    · exact absurd isConstant (noConstant name)
    · exact suffix
  exact ⟨inChains.subset, fun defines suffix => inChains.new defines (behind defines suffix),
    fun defines suffix => inChains.valued defines (behind defines suffix),
    fun first second suffixFirst suffixSecond =>
      inChains.nested first second (behind first suffixFirst) (behind second suffixSecond)⟩

/-- The definitions of a constant's chain are in one chain, and those behind it are of other names,
since all names of the chain have a value there. -/
theorem constant {names : Names} {name : String} {resolved : Resolved}
    (value : Resolves names name rest resolved)
    (inChains : InChains resolved.names.defined after (rest.drop resolved.used)) :
    InChains names.defined after (.constant name :: rest) := by
  refine ⟨fun _ mem => inChains.subset (value.defined_subset mem), ?_, ?_, ?_⟩
  · intro other definition defines suffix
    rcases value.suffix_cases suffix defines with behind | ⟨_, isNew, _⟩
    · exact fun mem => inChains.new defines behind (value.defined_subset mem)
    · exact isNew
  · intro other definition defines suffix
    rcases value.suffix_cases suffix defines with behind | ⟨_, _, hasValue⟩
    · exact inChains.valued defines behind
    · exact inChains.subset hasValue
  · intro other first second definesFirst definesSecond suffixFirst suffixSecond
    rcases value.suffix_cases suffixFirst definesFirst with behind | ⟨nested, _, hasValue⟩
    · rcases value.suffix_cases suffixSecond definesSecond with behindToo | ⟨_, _, hasValue⟩
      · exact inChains.nested definesFirst definesSecond behind behindToo
      · exact absurd hasValue (inChains.new definesFirst behind)
    · rcases value.suffix_cases suffixSecond definesSecond with behind | ⟨nestedToo, _, _⟩
      · exact absurd hasValue (inChains.new definesSecond behind)
      · exact nested.total nestedToo

end InChains

theorem ResolvesLine.inChains {names after : Names} {skip : Nat} {lexemes : List Lexeme}
    {tokens : List Token} (resolves : ResolvesLine names skip lexemes tokens after) :
    InChains names.defined after.defined (lexemes.drop skip) := by
  induction resolves with
  | nil =>
      rw [List.drop_nil]
      exact .nil _
  | skipped _ ih => exact ih
  | plain _ ih => exact ih.cons (by simp)
  | numbered _ ih =>
      rw [Names.defined_slot] at ih
      exact ih.cons (by simp)
  | constant value _ ih => exact .constant value ih

/-- Lines define names that had no value before. -/
theorem ResolvesLines.new {names after : Names} {lines : List (List Lexeme)}
    {commands : List (List Token)} (resolves : ResolvesLines names lines commands after)
    {line definition : List Lexeme} {name : String} (inLines : line ∈ lines)
    (suffix : definition <:+ line) (defines : Defines name definition) : name ∉ names.defined := by
  induction resolves with
  | nil => simp at inLines
  | cons first others ih =>
      rcases List.mem_cons.mp inLines with rfl | inLines
      · exact first.inChains.new defines suffix
      · exact fun mem => ih inLines (first.inChains.subset mem)

/-- Over all lines, only definitions in one chain of one line can be of the same name. -/
theorem ResolvesLines.nested {names after : Names} {lines : List (List Lexeme)}
    {commands : List (List Token)} (resolves : ResolvesLines names lines commands after)
    {i j : Nat} {line other first second : List Lexeme} {name : String}
    (atFirst : lines[i]? = some line) (atSecond : lines[j]? = some other)
    (suffixFirst : first <:+ line) (suffixSecond : second <:+ other)
    (definesFirst : Defines name first) (definesSecond : Defines name second) :
    i = j ∧ (Nested first second ∨ Nested second first) := by
  induction resolves generalizing i j with
  | nil => simp at atFirst
  | cons resolvesLine others ih =>
      have inChains := resolvesLine.inChains
      rcases i with _ | i
      · obtain rfl := Option.some.inj atFirst
        rcases j with _ | j
        · obtain rfl := Option.some.inj atSecond
          exact ⟨rfl, inChains.nested definesFirst definesSecond suffixFirst suffixSecond⟩
        · have hasValue := inChains.valued definesFirst suffixFirst
          exact absurd hasValue
            (others.new (List.mem_of_getElem? atSecond) suffixSecond definesSecond)
      · rcases j with _ | j
        · obtain rfl := Option.some.inj atSecond
          have hasValue := inChains.valued definesSecond suffixSecond
          exact absurd hasValue (others.new (List.mem_of_getElem? atFirst) suffixFirst definesFirst)
        · rcases ih atFirst atSecond with ⟨rfl, nested⟩
          exact ⟨rfl, nested⟩

/-- Empty lines change no names. -/
theorem ResolvesLines.exists_of_filter {names after : Names} {lines : List (List Lexeme)}
    {commands : List (List Token)}
    (resolves : ResolvesLines names (lines.filter (!·.isEmpty)) commands after) :
    ∃ all, ResolvesLines names lines all after := by
  induction lines generalizing names commands with
  | nil => exact ⟨commands, resolves⟩
  | cons line rest ih =>
      cases line with
      | nil =>
          rcases ih resolves with ⟨all, resolvesRest⟩
          exact ⟨[] :: all, .cons .nil resolvesRest⟩
      | cons lexeme others =>
          rw [List.filter_cons_of_pos (by simp)] at resolves
          cases resolves with
          | cons first resolvesRest =>
              rcases ih resolvesRest with ⟨all, resolvesRest⟩
              exact ⟨_ :: all, .cons first resolvesRest⟩

/-- In an accepted script, two definitions of one constant are in one chain of one line. -/
theorem definitions_in_one_chain {source : String} {script : Script}
    (reads : read source = .ok script) :
    ∃ lines, readLines source.toList = .ok lines ∧
      ∀ (i j : Nat) (line other : List (Located Lexeme)) (first second : List Lexeme)
        (name : String), lines[i]? = some line → lines[j]? = some other →
        first <:+ line.map Located.content → second <:+ other.map Located.content →
        Defines name first → Defines name second →
        i = j ∧ (Nested first second ∨ Nested second first) := by
  rcases exists_read_eq_iff.mp ⟨script, reads, rfl, rfl⟩ with ⟨lines, after, scanned, resolves, -⟩
  have swapped : (lines.filter (!·.isEmpty)).map (·.map Located.content) =
      (lines.map (·.map Located.content)).filter (!·.isEmpty) := by
    rw [List.filter_map]
    congr 1
    apply List.filter_congr
    simp
  rw [swapped] at resolves
  rcases resolves.exists_of_filter with ⟨commands, resolvesAll⟩
  refine ⟨lines, scanned, ?_⟩
  intro i j line other first second name atFirst atSecond
  apply resolvesAll.nested
  · simp [atFirst]
  · simp [atSecond]

/-- A source with definitions on two lines, one of them a chain of two. -/
theorem definitions_in_one_chain_of_two_lines :
    let source := "#a : #b : ~1 $x\n\n#c : #a #d : \"t\""
    ∃ script, read source = .ok script ∧ ∃ lines, readLines source.toList = .ok lines ∧
      ∀ (i j : Nat) (line other : List (Located Lexeme)) (first second : List Lexeme)
        (name : String), lines[i]? = some line → lines[j]? = some other →
        first <:+ line.map Located.content → second <:+ other.map Located.content →
        Defines name first → Defines name second →
        i = j ∧ (Nested first second ∨ Nested second first) := by
  intro source
  have accepted : (read source).isOk = true := by decide +kernel
  rcases reads : read source with error | script
  · rw [reads] at accepted
    cases accepted
  · exact ⟨script, rfl, definitions_in_one_chain reads⟩

/-- A name can be defined twice: in a chain it has no value until the chain ends. -/
theorem constant_defined_twice :
    let source := "#a : #a : ~1"
    ∃ script line first second, read source = .ok script ∧ readLines source.toList = .ok [line] ∧
      first <:+ line.map Located.content ∧ second <:+ line.map Located.content ∧
      first ≠ second ∧ Defines "a" first ∧ Defines "a" second := by
  intro source
  have accepted : (read source).isOk = true := by decide +kernel
  have scanned : (readLines source.toList).toOption =
      some [[⟨1, .constant "a"⟩, ⟨4, colon⟩, ⟨6, .constant "a"⟩, ⟨9, colon⟩,
        ⟨11, .plain (.value (.number 1))⟩]] := by
    decide +kernel
  rcases reads : read source with error | script
  · rw [reads] at accepted
    cases accepted
  · rcases lines : readLines source.toList with misplaced | line
    · rw [lines] at scanned
      cases scanned
    · rw [lines] at scanned
      cases scanned
      refine ⟨script, _, [.constant "a", colon, .constant "a", colon, .plain (.value (.number 1))],
        [.constant "a", colon, .plain (.value (.number 1))], rfl, rfl, ⟨[], rfl⟩,
        ⟨[.constant "a", colon], rfl⟩, by simp, ⟨_, rfl⟩, ⟨_, rfl⟩⟩

end Script

end Esoterica
