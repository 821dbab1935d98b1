import Esoterica.Script.Resolve

/-!
# What resolving does

Resolving a line is described by rules over the contents of its lexemes, one for each thing that a
lexeme can be; offsets are used for reports only. The rules hold of a line exactly if it is
resolved.
-/

namespace Esoterica

namespace Script

/-- The operator that stands behind a constant where it is defined. -/
def colon : Lexeme :=
  .plain (.operator ':')

/-- The constant before the rest of a line stands for a value. -/
inductive Resolves (names : Names) : String → List Lexeme → Resolved → Prop where
  | used {name : String} {rest : List Lexeme} {literal : Literal}
      (known : names.constants.lookup name = some literal) (noColon : rest.head? ≠ some colon) :
      Resolves names name rest ⟨literal, 0, names⟩
  | defined {name : String} {rest : List Lexeme} {literal : Literal}
      (new : names.constants.lookup name = none) :
      Resolves names name (colon :: .plain (.value literal) :: rest)
        ⟨literal, 2, names.define name literal⟩
  | chained {name inner : String} {rest : List Lexeme} {resolved : Resolved}
      (new : names.constants.lookup name = none) (value : Resolves names inner rest resolved) :
      Resolves names name (colon :: .constant inner :: rest)
        ⟨resolved.literal, resolved.used + 2, resolved.names.define name resolved.literal⟩

/-- A line of which the first `skip` lexemes were used before is resolved. -/
inductive ResolvesLine : Names → (skip : Nat) → List Lexeme → List Token → Names → Prop where
  | nil {names : Names} {skip : Nat} : ResolvesLine names skip [] [] names
  | skipped {names after : Names} {skip : Nat} {lexeme : Lexeme} {rest : List Lexeme}
      {tokens : List Token} (others : ResolvesLine names skip rest tokens after) :
      ResolvesLine names (skip + 1) (lexeme :: rest) tokens after
  | plain {names after : Names} {item : Item} {rest : List Lexeme} {tokens : List Token}
      (others : ResolvesLine names 0 rest tokens after) :
      ResolvesLine names 0 (.plain item :: rest) (.plain item :: tokens) after
  | numbered {names after : Names} {name : String} {rest : List Lexeme} {tokens : List Token}
      (others : ResolvesLine (names.slot name).2 0 rest tokens after) :
      ResolvesLine names 0 (.variable name :: rest) (.variable (names.slot name).1 :: tokens) after
  | constant {names after : Names} {name : String} {rest : List Lexeme} {tokens : List Token}
      {resolved : Resolved} (value : Resolves names name rest resolved)
      (others : ResolvesLine resolved.names resolved.used rest tokens after) :
      ResolvesLine names 0 (.constant name :: rest) (.plain (.value resolved.literal) :: tokens)
        after

/-- Lines are resolved in order. -/
inductive ResolvesLines : Names → List (List Lexeme) → List (List Token) → Names → Prop where
  | nil {names : Names} : ResolvesLines names [] [] names
  | cons {names between after : Names} {line : List Lexeme} {command : List Token}
      {rest : List (List Lexeme)} {commands : List (List Token)}
      (first : ResolvesLine names 0 line command between)
      (others : ResolvesLines between rest commands after) :
      ResolvesLines names (line :: rest) (command :: commands) after

theorem head?_ne_colon {rest : List (Located Lexeme)}
    (notAlone : ∀ offset, rest ≠ [⟨offset, colon⟩])
    (notFollowed : ∀ offset value others, rest ≠ ⟨offset, colon⟩ :: value :: others) :
    (rest.map Located.content).head? ≠ some colon := by
  intro startsWithColon
  rcases rest with _ | ⟨⟨offset, content⟩, others⟩
  · cases startsWithColon
  · obtain rfl : content = colon := by simpa using startsWithColon
    rcases others with _ | ⟨value, others⟩
    · exact notAlone offset rfl
    · exact notFollowed offset value others rfl

theorem resolveConstant_of_noColon {names : Names} (offset : Nat) (name : String)
    {rest : List (Located Lexeme)} (noColon : (rest.map Located.content).head? ≠ some colon) :
    resolveConstant names offset name rest =
      match names.constants.lookup name with
      | some literal => .ok ⟨literal, 0, names⟩
      | none => .error ⟨.unknownConstant name, offset⟩ := by
  unfold resolveConstant
  split
  · exact absurd rfl noColon
  · exact absurd rfl noColon
  · rfl

theorem resolves_of_resolveConstant {names : Names} {offset : Nat} {name : String}
    {rest : List (Located Lexeme)} {resolved : Resolved}
    (succeeds : resolveConstant names offset name rest = .ok resolved) :
    Resolves names name (rest.map Located.content) resolved := by
  fun_induction resolveConstant names offset name rest generalizing resolved with
  | case1 | case2 | case5 | case7 => cases succeeds
  | case3 _ name _ value rest new literal isLiteral =>
      cases succeeds
      rw [List.map_cons, List.map_cons, isLiteral]
      exact .defined (Option.not_isSome_iff_eq_none.mp new)
  | case4 _ name _ value rest new inner isConstant ih =>
      cases resolves : resolveConstant names value.offset inner rest with
      | error misplaced =>
          rw [resolves] at succeeds
          cases succeeds
      | ok innerResolved =>
          rw [resolves] at succeeds
          cases succeeds
          rw [List.map_cons, List.map_cons, isConstant]
          exact .chained (Option.not_isSome_iff_eq_none.mp new) (ih resolves)
  | case6 rest _ name literal known notAlone notFollowed =>
      cases succeeds
      exact .used known (head?_ne_colon notAlone notFollowed)

theorem Resolves.resolveConstant_eq {names : Names} {name : String} {lexemes : List Lexeme}
    {resolved : Resolved} (resolves : Resolves names name lexemes resolved) (offset : Nat)
    {rest : List (Located Lexeme)} (contents : rest.map Located.content = lexemes) :
    resolveConstant names offset name rest = .ok resolved := by
  induction resolves generalizing offset rest with
  | used known noColon =>
      subst contents
      rw [resolveConstant_of_noColon offset _ noColon, known]
  | defined new =>
      obtain ⟨⟨_, _⟩, _, rfl, rfl, others⟩ := List.map_eq_cons_iff.mp contents
      obtain ⟨⟨_, _⟩, _, rfl, rfl, -⟩ := List.map_eq_cons_iff.mp others
      simp [colon, resolveConstant, new]
  | chained new value ih =>
      obtain ⟨⟨_, _⟩, _, rfl, rfl, others⟩ := List.map_eq_cons_iff.mp contents
      obtain ⟨⟨innerOffset, _⟩, _, rfl, rfl, innerContents⟩ := List.map_eq_cons_iff.mp others
      simp only [colon, resolveConstant, new, Option.isSome_none, Bool.false_eq_true, if_false,
        ih innerOffset innerContents]
      rfl

/-- The first token of a line that is resolved can be split off. -/
theorem exists_of_cons_eq_ok {result : Except Misplaced (List (Located Token) × Names)}
    {token : Located Token} {command : List (Located Token)} {after : Names}
    (succeeds : (result.bind fun (tokens, names) => .ok (token :: tokens, names)) =
      .ok (command, after)) :
    ∃ tokens, result = .ok (tokens, after) ∧ command = token :: tokens := by
  rcases result with misplaced | ⟨tokens, names⟩
  · cases succeeds
  · cases succeeds
    exact ⟨tokens, rfl, rfl⟩

theorem resolvesLine_of_resolveLine {names after : Names} {skip : Nat}
    {line : List (Located Lexeme)} {command : List (Located Token)}
    (succeeds : resolveLine names skip line = .ok (command, after)) :
    ResolvesLine names skip (line.map Located.content) (command.map Located.content) after := by
  induction line generalizing names skip command with
  | nil =>
      cases succeeds
      exact .nil
  | cons located rest ih =>
      rcases located with ⟨offset, lexeme⟩
      rcases skip with _ | skip
      · rcases lexeme with item | name | name
        · rcases exists_of_cons_eq_ok succeeds with ⟨tokens, others, rfl⟩
          exact .plain (ih others)
        · rcases exists_of_cons_eq_ok succeeds with ⟨tokens, others, rfl⟩
          exact .numbered (ih others)
        · cases resolves : resolveConstant names offset name rest with
          | error misplaced =>
              rw [resolveLine, resolves] at succeeds
              cases succeeds
          | ok resolved =>
              rw [resolveLine, resolves] at succeeds
              rcases exists_of_cons_eq_ok succeeds with ⟨tokens, others, rfl⟩
              exact .constant (resolves_of_resolveConstant resolves) (ih others)
      · exact .skipped (ih succeeds)

theorem ResolvesLine.exists_resolveLine_eq {names after : Names} {skip : Nat}
    {lexemes : List Lexeme} {tokens : List Token}
    (resolves : ResolvesLine names skip lexemes tokens after) {line : List (Located Lexeme)}
    (contents : line.map Located.content = lexemes) :
    ∃ command, resolveLine names skip line = .ok (command, after) ∧
      command.map Located.content = tokens := by
  induction resolves generalizing line with
  | nil =>
      cases List.map_eq_nil_iff.mp contents
      exact ⟨[], by simp [resolveLine], rfl⟩
  | skipped others ih =>
      obtain ⟨_, _, rfl, -, contents⟩ := List.map_eq_cons_iff.mp contents
      exact ih contents
  | plain others ih =>
      obtain ⟨⟨offset, _⟩, _, rfl, rfl, others⟩ := List.map_eq_cons_iff.mp contents
      rcases ih others with ⟨command, succeeds, tokens⟩
      refine ⟨⟨offset, _⟩ :: command, ?_, congrArg (List.cons _) tokens⟩
      simp only [resolveLine, succeeds]
      rfl
  | numbered others ih =>
      obtain ⟨⟨offset, _⟩, _, rfl, rfl, others⟩ := List.map_eq_cons_iff.mp contents
      rcases ih others with ⟨command, succeeds, tokens⟩
      refine ⟨⟨offset, _⟩ :: command, ?_, congrArg (List.cons _) tokens⟩
      simp only [resolveLine, succeeds]
      rfl
  | constant value others ih =>
      obtain ⟨⟨offset, _⟩, _, rfl, rfl, others⟩ := List.map_eq_cons_iff.mp contents
      rcases ih others with ⟨command, succeeds, tokens⟩
      refine ⟨⟨offset, _⟩ :: command, ?_, congrArg (List.cons _) tokens⟩
      simp only [resolveLine, value.resolveConstant_eq offset others]
      change (resolveLine _ _ _).bind _ = _
      rw [succeeds]
      rfl

/-- The rules hold of lines exactly if these are resolved. -/
theorem exists_resolveLines_eq_iff {names after : Names} {lines : List (List (Located Lexeme))}
    {commands : List (List Token)} :
    (∃ resolved, resolveLines names lines = .ok (resolved, after) ∧
        resolved.map (·.map Located.content) = commands) ↔
      ResolvesLines names (lines.map (·.map Located.content)) commands after := by
  induction lines generalizing names commands with
  | nil =>
      constructor
      · rintro ⟨resolved, succeeds, rfl⟩
        cases succeeds
        exact .nil
      · intro resolves
        cases resolves
        exact ⟨[], rfl, rfl⟩
  | cons line rest ih =>
      constructor
      · rintro ⟨resolved, succeeds, rfl⟩
        rw [resolveLines] at succeeds
        rcases first : resolveLine names 0 line with misplaced | ⟨command, between⟩
        · rw [first] at succeeds
          cases succeeds
        · simp only [first] at succeeds
          change (resolveLines between rest).bind _ = _ at succeeds
          rcases others : resolveLines between rest with misplaced | ⟨commands, last⟩
          · rw [others] at succeeds
            cases succeeds
          · rw [others] at succeeds
            cases succeeds
            exact .cons (resolvesLine_of_resolveLine first) (ih.mp ⟨commands, others, rfl⟩)
      · intro resolves
        cases resolves with
        | cons first others =>
            rcases first.exists_resolveLine_eq rfl with ⟨command, resolvesFirst, rfl⟩
            rcases ih.mpr others with ⟨resolved, resolvesOthers, rfl⟩
            refine ⟨command :: resolved, ?_, rfl⟩
            simp only [resolveLines, resolvesFirst]
            change (resolveLines _ rest).bind _ = _
            rw [resolvesOthers]
            rfl

/-- The commands of a script without the positions of their tokens. -/
def contents (script : Script) : List (List Token) :=
  script.commands.map (·.map Located.content)

/-- A source is accepted exactly if its lines are scanned and those with something in them are
resolved. -/
theorem exists_read_eq_iff {source : String} {commands : List (List Token)}
    {variableNames : Array String} :
    (∃ script, read source = .ok script ∧ script.contents = commands ∧
        script.variableNames = variableNames) ↔
      ∃ lines after, readLines source.toList = .ok lines ∧
        ResolvesLines {} ((lines.filter (!·.isEmpty)).map (·.map Located.content)) commands after ∧
        after.slots = variableNames := by
  constructor
  · rintro ⟨script, succeeds, rfl, rfl⟩
    simp only [read] at succeeds
    rcases scanned : readLines source.toList with misplaced | lines
    · rw [scanned] at succeeds
      cases succeeds
    · rw [scanned] at succeeds
      change ((resolveLines _ _).bind _).mapError _ = _ at succeeds
      rcases resolved : resolveLines {} (lines.filter (!·.isEmpty))
        with misplaced | ⟨commands, after⟩
      · rw [resolved] at succeeds
        cases succeeds
      · rw [resolved] at succeeds
        cases succeeds
        exact ⟨lines, after, rfl, exists_resolveLines_eq_iff.mp ⟨commands, resolved, rfl⟩, rfl⟩
  · rintro ⟨lines, after, scanned, resolves, rfl⟩
    rcases exists_resolveLines_eq_iff.mpr resolves with ⟨commands, resolved, rfl⟩
    refine ⟨⟨commands, after.slots⟩, ?_, rfl, rfl⟩
    simp only [read, scanned]
    change ((resolveLines _ _).bind _).mapError _ = _
    rw [resolved]
    rfl

end Script

end Esoterica
