import Esoterica.Proofs.Script.Resolving

/-!
# What constants mean

A script is read from left to right with an environment, which says what the constants defined so
far stand for. A chain of definitions `#n1 : #n2 : ... #nk : e` is replaced by the value of `e` and
gives it to all its names; any other constant is replaced by its value. All else is kept. Reading
fails where a constant has no value to be replaced by, or cannot be given one.
-/

namespace Esoterica

namespace Script

/-- What the constants defined so far stand for. -/
abbrev Environment :=
  String → Option Literal

namespace Environment

def empty : Environment :=
  fun _ => none

/-- All the names stand for one value. -/
def bind (environment : Environment) (names : List String) (literal : Literal) : Environment :=
  fun name => if name ∈ names then some literal else environment name

end Environment

def FollowedByColon (rest : List (Located Lexeme)) : Prop :=
  (rest.map Located.content).head? = some colon

/-- The names and colons `#n1 : #n2 : ... #nk :` of a chain of definitions, up to its value. -/
inductive Links : List (Located Lexeme) → List String → Prop where
  | nil : Links [] []
  | cons {offset colonOffset : Nat} {name : String} {links : List (Located Lexeme)}
      {names : List String} (others : Links links names) :
      Links (⟨offset, .constant name⟩ :: ⟨colonOffset, colon⟩ :: links) (name :: names)

/-- The lexeme before the rest of a line is a literal, or a constant that is used there. -/
inductive Means (environment : Environment) : Lexeme → List (Located Lexeme) → Literal → Prop where
  | literal {literal : Literal} {rest : List (Located Lexeme)} :
      Means environment (.plain (.value literal)) rest literal
  | constant {name : String} {literal : Literal} {rest : List (Located Lexeme)}
      (bound : environment name = some literal) (used : ¬ FollowedByColon rest) :
      Means environment (.constant name) rest literal

/-- A line starts, at the given offset, with a chain that gives a value to names without one. -/
inductive Chain (environment : Environment) : List (Located Lexeme) → (offset : Nat) →
    List String → Literal → (rest : List (Located Lexeme)) → Prop where
  | mk {offset valueOffset : Nat} {value : Lexeme} {literal : Literal}
      {links rest : List (Located Lexeme)} {names : List String} (chain : Links links names)
      (starts : links.head?.map Located.offset = some offset)
      (new : ∀ name ∈ names, environment name = none)
      (means : Means environment value rest literal) :
      Chain environment (links ++ ⟨valueOffset, value⟩ :: rest) offset names literal rest

/-- What a line is read as, and the environment behind it. -/
inductive Reads : Environment → List (Located Lexeme) → List (Located Lexeme) → Environment → Prop
    where
  | nil {environment : Environment} : Reads environment [] [] environment
  | kept {environment after : Environment} {lexeme : Located Lexeme}
      {rest output : List (Located Lexeme)} (noConstant : ∀ name, lexeme.content ≠ .constant name)
      (others : Reads environment rest output after) :
      Reads environment (lexeme :: rest) (lexeme :: output) after
  | used {environment after : Environment} {offset : Nat} {name : String} {literal : Literal}
      {rest output : List (Located Lexeme)} (bound : environment name = some literal)
      (used : ¬ FollowedByColon rest) (others : Reads environment rest output after) :
      Reads environment (⟨offset, .constant name⟩ :: rest)
        (⟨offset, .plain (.value literal)⟩ :: output) after
  | defined {environment after : Environment} {offset : Nat} {literal : Literal}
      {line rest output : List (Located Lexeme)} {names : List String}
      (chain : Chain environment line offset names literal rest)
      (others : Reads (environment.bind names literal) rest output after) :
      Reads environment line (⟨offset, .plain (.value literal)⟩ :: output) after

/-- The constant at the start of a line cannot be read. -/
inductive Flawed (environment : Environment) : List (Located Lexeme) → Prop where
  | unbound {offset : Nat} {name : String} {links rest : List (Located Lexeme)}
      {names : List String} (chain : Links links names) (unbound : environment name = none)
      (used : ¬ FollowedByColon rest) :
      Flawed environment (links ++ ⟨offset, .constant name⟩ :: rest)
  | valueless {links : List (Located Lexeme)} {names : List String} (chain : Links links names)
      (defines : names ≠ []) : Flawed environment links
  | rebound {name : String} {links rest : List (Located Lexeme)} {names : List String}
      (chain : Links links names) (inChain : name ∈ names) (bound : environment name ≠ none) :
      Flawed environment (links ++ rest)
  | misvalued {offset : Nat} {value : Lexeme} {links rest : List (Located Lexeme)}
      {names : List String} (chain : Links links names) (defines : names ≠ [])
      (noLiteral : ∀ literal, value ≠ .plain (.value literal))
      (noConstant : ∀ name, value ≠ .constant name) :
      Flawed environment (links ++ ⟨offset, value⟩ :: rest)

/-- Reading a line meets a constant that cannot be read. -/
inductive Fails : Environment → List (Located Lexeme) → Prop where
  | here {environment : Environment} {line : List (Located Lexeme)}
      (flawed : Flawed environment line) : Fails environment line
  | kept {environment : Environment} {lexeme : Located Lexeme} {rest : List (Located Lexeme)}
      (noConstant : ∀ name, lexeme.content ≠ .constant name) (later : Fails environment rest) :
      Fails environment (lexeme :: rest)
  | used {environment : Environment} {offset : Nat} {name : String} {literal : Literal}
      {rest : List (Located Lexeme)} (bound : environment name = some literal)
      (used : ¬ FollowedByColon rest) (later : Fails environment rest) :
      Fails environment (⟨offset, .constant name⟩ :: rest)
  | defined {environment : Environment} {offset : Nat} {literal : Literal}
      {line rest : List (Located Lexeme)} {names : List String}
      (chain : Chain environment line offset names literal rest)
      (later : Fails (environment.bind names literal) rest) : Fails environment line

/-- What lines are read as, in order. -/
inductive ReadsLines : Environment → List (List (Located Lexeme)) →
    List (List (Located Lexeme)) → Environment → Prop where
  | nil {environment : Environment} : ReadsLines environment [] [] environment
  | cons {environment between after : Environment} {line output : List (Located Lexeme)}
      {lines outputs : List (List (Located Lexeme))} (first : Reads environment line output between)
      (others : ReadsLines between lines outputs after) :
      ReadsLines environment (line :: lines) (output :: outputs) after

/-- One of the lines fails, with all lines before it read. -/
inductive FailsLines : Environment → List (List (Located Lexeme)) → Prop where
  | here {environment : Environment} {line : List (Located Lexeme)}
      {lines : List (List (Located Lexeme))} (fails : Fails environment line) :
      FailsLines environment (line :: lines)
  | later {environment between : Environment} {line output : List (Located Lexeme)}
      {lines : List (List (Located Lexeme))} (first : Reads environment line output between)
      (fails : FailsLines between lines) : FailsLines environment (line :: lines)

/-- A token as it is written, variables by their names in a table. -/
def Token.lexeme? (table : Array String) : Token → Option Lexeme
  | plain item => some (.plain item)
  | .variable slot => table[slot]?.map .variable

/-- A token at its offset as it is written there. -/
def written (table : Array String) (token : Located Token) : Option (Located Lexeme) :=
  (token.content.lexeme? table).map fun lexeme => ⟨token.offset, lexeme⟩

def Spells (table : Array String) (command : List (Located Token))
    (line : List (Located Lexeme)) : Prop :=
  command.map (written table) = line.map some

/-- The commands of a script are written as the lines. -/
def WrittenAs (script : Script) (lines : List (List (Located Lexeme))) : Prop :=
  script.commands.map (·.map (written script.variableNames)) = lines.map (·.map some)

/-! ### Names -/

namespace Names

def environment (names : Names) : Environment :=
  fun name => names.constants.lookup name

def defineAll (names : Names) (defined : List String) (literal : Literal) : Names :=
  defined.foldr (fun name names => names.define name literal) names

theorem environment_define (names : Names) (name other : String) (literal : Literal) :
    (names.define name literal).environment other =
      if other = name then some literal else names.environment other := by
  by_cases same : other = name
  · simp [environment, define, same]
  · simp [environment, define, same, List.lookup_cons, beq_false_of_ne same]

theorem environment_defineAll (names : Names) (defined : List String) (literal : Literal) :
    (names.defineAll defined literal).environment = names.environment.bind defined literal := by
  funext other
  induction defined with
  | nil => rfl
  | cons name others ih =>
      change ((names.defineAll others literal).define name literal).environment other = _
      rw [environment_define, ih]
      simp only [Environment.bind, List.mem_cons]
      grind

theorem slots_defineAll (names : Names) (defined : List String) (literal : Literal) :
    (names.defineAll defined literal).slots = names.slots := by
  induction defined with
  | nil => rfl
  | cons name others ih => exact ih

theorem environment_slot (names : Names) (name : String) :
    (names.slot name).2.environment = names.environment := by
  unfold slot
  split
  · rfl
  · rfl

theorem slots_prefix_slot (names : Names) (name : String) :
    names.slots.toList <+: (names.slot name).2.slots.toList := by
  unfold slot
  split
  · exact List.prefix_rfl
  · rw [Array.toList_push]
    exact List.prefix_append _ _

theorem getElem?_slots_slot (names : Names) (name : String) :
    (names.slot name).2.slots.toList[(names.slot name).1]? = some name := by
  unfold slot
  split
  case h_1 slot found =>
    have place : names.slots.toList.idxOf? name = some slot := by
      rwa [← List.idxOf?_toArray, Array.toArray_toList]
    rcases List.idxOf?_eq_some_iff.mp place with ⟨inside, same, _⟩
    rw [List.getElem?_eq_getElem inside, same]
  case h_2 => simp

/-- A variable's number is its place in every table that starts with the names so far. -/
theorem getElem?_slot (names : Names) (name : String) {table : Array String}
    (known : (names.slot name).2.slots.toList <+: table.toList) :
    table[(names.slot name).1]? = some name := by
  have found := getElem?_slots_slot names name
  have inside := (List.getElem?_eq_some_iff.mp found).1
  rcases known with ⟨later, same⟩
  rw [← Array.getElem?_toList, ← same, List.getElem?_append_left inside, found]

end Names

/-! ### Constants -/

variable {names : Names} {offset colonOffset valueOffset : Nat} {name : String} {literal : Literal}
  {value : Lexeme} {links rest : List (Located Lexeme)} {defined : List String}

theorem resolveConstant_of_used (bound : names.environment name = some literal)
    (used : ¬ FollowedByColon rest) :
    resolveConstant names offset name rest = .ok ⟨literal, 0, names⟩ := by
  have known : names.constants.lookup name = some literal := bound
  rw [resolveConstant_of_noColon offset name used, known]

theorem resolveConstant_of_literal (new : names.environment name = none) :
    resolveConstant names offset name
        (⟨colonOffset, colon⟩ :: ⟨valueOffset, .plain (.value literal)⟩ :: rest) =
      .ok ⟨literal, 2, names.define name literal⟩ := by
  have unknown : names.constants.lookup name = none := new
  simp [colon, resolveConstant, unknown]

theorem resolveConstant_of_constant {inner : String} (new : names.environment name = none) :
    resolveConstant names offset name
        (⟨colonOffset, colon⟩ :: ⟨valueOffset, .constant inner⟩ :: rest) =
      (resolveConstant names valueOffset inner rest).map fun resolved =>
        ⟨resolved.literal, resolved.used + 2, resolved.names.define name resolved.literal⟩ := by
  have unknown : names.constants.lookup name = none := new
  simp only [colon, resolveConstant, unknown, Option.isSome_none, Bool.false_eq_true, if_false]
  cases resolveConstant names valueOffset inner rest <;> rfl

/-- A chain of definitions gives the value at its end to all its names. -/
theorem Links.resolveConstant_eq (chain : Links links defined)
    (new : ∀ other ∈ name :: defined, names.environment other = none)
    (means : Means names.environment value rest literal) (offset colonOffset valueOffset : Nat) :
    resolveConstant names offset name
        (⟨colonOffset, colon⟩ :: (links ++ ⟨valueOffset, value⟩ :: rest)) =
      .ok ⟨literal, links.length + 2, names.defineAll (name :: defined) literal⟩ := by
  induction chain generalizing name offset colonOffset with
  | nil =>
      have isNew := new name (by simp)
      cases means with
      | literal => exact resolveConstant_of_literal isNew
      | constant bound used =>
          rw [List.nil_append, resolveConstant_of_constant isNew,
            resolveConstant_of_used bound used]
          rfl
  | @cons innerOffset innerColon inner links defined others ih =>
      have isNew := new name (by simp)
      have innerNew : ∀ other ∈ inner :: defined, names.environment other = none :=
        fun other inChain => new other (List.mem_cons_of_mem _ inChain)
      rw [List.cons_append, List.cons_append, resolveConstant_of_constant isNew, ih innerNew]
      rfl

/-- The constant at the start of a line is not resolved. -/
def Unresolved (names : Names) (line : List (Located Lexeme)) : Prop :=
  ∃ offset name rest misplaced, line = ⟨offset, .constant name⟩ :: rest ∧
    resolveConstant names offset name rest = .error misplaced

theorem unresolved_of_rebound (bound : names.environment name ≠ none) :
    Unresolved names (⟨offset, .constant name⟩ :: ⟨colonOffset, colon⟩ :: rest) := by
  have known : (names.constants.lookup name).isSome = true := Option.isSome_iff_ne_none.mpr bound
  cases rest with
  | nil => exact ⟨_, _, _, _, rfl, rfl⟩
  | cons value rest =>
      refine ⟨offset, name, _, ⟨.duplicateConstant name, offset⟩, rfl, ?_⟩
      simp only [colon, resolveConstant, known, if_true]

/-- What is not resolved at the end of a definition is not resolved in front of it. -/
theorem Unresolved.link (unresolved : Unresolved names rest) :
    Unresolved names (⟨offset, .constant name⟩ :: ⟨colonOffset, colon⟩ :: rest) := by
  by_cases bound : names.environment name = none
  · rcases unresolved with ⟨innerOffset, inner, behind, misplaced, rfl, fails⟩
    refine ⟨offset, name, _, misplaced, rfl, ?_⟩
    rw [resolveConstant_of_constant bound, fails]
    rfl
  · exact unresolved_of_rebound bound

theorem Links.unresolved (chain : Links links defined) (unresolved : Unresolved names rest) :
    Unresolved names (links ++ rest) := by
  induction chain with
  | nil => exact unresolved
  | cons _ ih => exact ih.link

/-- A chain is not resolved if its last definition is not, whatever its name. -/
theorem Links.unresolved_of_last (chain : Links links defined) (defines : defined ≠ [])
    (last : ∀ offset name colonOffset,
      Unresolved names (⟨offset, .constant name⟩ :: ⟨colonOffset, colon⟩ :: rest)) :
    Unresolved names (links ++ rest) := by
  induction chain with
  | nil => exact absurd rfl defines
  | @cons offset colonOffset name links defined others ih =>
      cases others with
      | nil => exact last offset name colonOffset
      | cons others => exact (ih (by simp)).link

theorem Flawed.unresolved {line : List (Located Lexeme)} (flawed : Flawed names.environment line) :
    Unresolved names line := by
  cases flawed with
  | @unbound offset name links rest _ chain unbound used =>
      apply chain.unresolved
      refine ⟨offset, name, rest, ⟨.unknownConstant name, offset⟩, rfl, ?_⟩
      have unknown : names.constants.lookup name = none := unbound
      rw [resolveConstant_of_noColon offset name used, unknown]
  | valueless chain defines =>
      rw [← List.append_nil line]
      apply chain.unresolved_of_last defines
      intro offset name colonOffset
      exact ⟨offset, name, _, _, rfl, rfl⟩
  | @rebound name links rest _ chain inChain bound =>
      induction chain with
      | nil => cases inChain
      | cons others ih =>
          rcases List.mem_cons.mp inChain with rfl | inChain
          · exact unresolved_of_rebound bound
          · exact (ih inChain).link
  | @misvalued valueOffset value links rest _ chain defines noLiteral noConstant =>
      apply chain.unresolved_of_last defines
      intro offset name colonOffset
      by_cases bound : names.environment name = none
      · have unknown : names.constants.lookup name = none := bound
        refine ⟨offset, name, _, ⟨.invalidConstantValue name value.describe, valueOffset⟩, rfl, ?_⟩
        simp only [colon, resolveConstant, unknown, Option.isSome_none, Bool.false_eq_true,
          if_false]
      · exact unresolved_of_rebound bound

/-! ### Lines -/

theorem resolveLine_skip (names : Names) (skip : Nat) (line : List (Located Lexeme)) :
    resolveLine names skip line = resolveLine names 0 (line.drop skip) := by
  induction line generalizing skip with
  | nil => simp [resolveLine]
  | cons lexeme rest ih =>
      cases skip with
      | zero => rfl
      | succ skip => exact ih skip

/-- A token in front of what the rest of a line is resolved to. -/
def attach (token : Located Token) (result : Except Misplaced (List (Located Token) × Names)) :
    Except Misplaced (List (Located Token) × Names) :=
  result.bind fun (tokens, names) => .ok (token :: tokens, names)

theorem attach_eq_error_iff {token : Located Token} {misplaced : Misplaced}
    {result : Except Misplaced (List (Located Token) × Names)} :
    attach token result = .error misplaced ↔ result = .error misplaced := by
  cases result <;> simp [attach, Except.bind]

theorem resolveLine_plain (names : Names) (offset : Nat) (item : Item)
    (rest : List (Located Lexeme)) :
    resolveLine names 0 (⟨offset, .plain item⟩ :: rest) =
      attach ⟨offset, .plain item⟩ (resolveLine names 0 rest) :=
  rfl

theorem resolveLine_variable (names : Names) (offset : Nat) (name : String)
    (rest : List (Located Lexeme)) :
    resolveLine names 0 (⟨offset, .variable name⟩ :: rest) =
      attach ⟨offset, .variable (names.slot name).1⟩ (resolveLine (names.slot name).2 0 rest) :=
  rfl

theorem resolveLine_constant {resolved : Resolved}
    (resolves : resolveConstant names offset name rest = .ok resolved) :
    resolveLine names 0 (⟨offset, .constant name⟩ :: rest) =
      attach ⟨offset, .plain (.value resolved.literal)⟩
        (resolveLine resolved.names 0 (rest.drop resolved.used)) := by
  rw [resolveLine, resolves, ← resolveLine_skip]
  rfl

theorem resolveLine_of_unresolved {line : List (Located Lexeme)}
    (unresolved : Unresolved names line) :
    ∃ misplaced, resolveLine names 0 line = .error misplaced := by
  rcases unresolved with ⟨offset, name, rest, misplaced, rfl, fails⟩
  refine ⟨misplaced, ?_⟩
  rw [resolveLine, fails]
  rfl

theorem Spells.cons {table : Array String} {command : List (Located Token)}
    {line : List (Located Lexeme)} {token : Token} {lexeme : Lexeme}
    (spells : Spells table command line) (offset : Nat) (same : token.lexeme? table = some lexeme) :
    Spells table (⟨offset, token⟩ :: command) (⟨offset, lexeme⟩ :: line) := by
  unfold Spells at spells ⊢
  rw [List.map_cons, List.map_cons, spells, written, same, Option.map_some]

/-- What a line is resolved to spells the output, by any table that starts with the names seen. -/
structure Renders (names : Names) (command : List (Located Token)) (after : Names)
    (output : List (Located Lexeme)) : Prop where
  grows : names.slots.toList <+: after.slots.toList
  spells : ∀ table : Array String, after.slots.toList <+: table.toList →
    Spells table command output

namespace Renders

variable {between after : Names} {command : List (Located Token)} {output : List (Located Lexeme)}

theorem nil (names : Names) : Renders names [] names [] :=
  ⟨List.prefix_rfl, fun _ _ => rfl⟩

theorem plain (renders : Renders between command after output)
    (sameSlots : between.slots = names.slots) (offset : Nat) (item : Item) :
    Renders names (⟨offset, .plain item⟩ :: command) after (⟨offset, .plain item⟩ :: output) := by
  constructor
  · rw [← sameSlots]
    exact renders.grows
  · intro table starts
    exact (renders.spells table starts).cons offset rfl

theorem numbered {name : String} (renders : Renders (names.slot name).2 command after output)
    (offset : Nat) :
    Renders names (⟨offset, .variable (names.slot name).1⟩ :: command) after
      (⟨offset, .variable name⟩ :: output) := by
  constructor
  · exact (names.slots_prefix_slot name).trans renders.grows
  · intro table starts
    apply (renders.spells table starts).cons offset
    rw [Token.lexeme?, names.getElem?_slot name (renders.grows.trans starts), Option.map_some]

end Renders

theorem resolveLine_used (bound : names.environment name = some literal)
    (used : ¬ FollowedByColon rest) :
    resolveLine names 0 (⟨offset, .constant name⟩ :: rest) =
      attach ⟨offset, .plain (.value literal)⟩ (resolveLine names 0 rest) :=
  resolveLine_constant (resolveConstant_of_used bound used)

theorem Chain.resolveLine_eq {line : List (Located Lexeme)}
    (chain : Chain names.environment line offset defined literal rest) :
    resolveLine names 0 line =
      attach ⟨offset, .plain (.value literal)⟩
        (resolveLine (names.defineAll defined literal) 0 rest) := by
  cases chain with
  | @mk _ valueOffset value _ links _ _ chain starts new means =>
      cases chain with
      | nil => cases starts
      | @cons first colonOffset name links defined others =>
          obtain rfl : first = offset := Option.some.inj starts
          have resolves := others.resolveConstant_eq new means first colonOffset valueOffset
          rw [List.cons_append, List.cons_append, resolveLine_constant resolves]
          simp

theorem Reads.exists_resolveLine_eq {environment after : Environment}
    {line output : List (Located Lexeme)} (reads : Reads environment line output after)
    {names : Names} (same : names.environment = environment) :
    ∃ command last, resolveLine names 0 line = .ok (command, last) ∧ last.environment = after ∧
      Renders names command last output := by
  induction reads generalizing names with
  | nil => exact ⟨[], names, rfl, same, .nil names⟩
  | @kept environment after lexeme rest output noConstant others ih =>
      rcases lexeme with ⟨offset, item | name | name⟩
      · rcases ih same with ⟨command, last, succeeds, sameLast, renders⟩
        refine ⟨_, last, ?_, sameLast, renders.plain rfl offset item⟩
        rw [resolveLine_plain, succeeds]
        rfl
      · have sameNames := (names.environment_slot name).trans same
        rcases ih sameNames with ⟨command, last, succeeds, sameLast, renders⟩
        refine ⟨_, last, ?_, sameLast, renders.numbered offset⟩
        rw [resolveLine_variable, succeeds]
        rfl
      · exact absurd rfl (noConstant name)
  | @used environment after offset name literal rest output bound used others ih =>
      rcases ih same with ⟨command, last, succeeds, sameLast, renders⟩
      refine ⟨_, last, ?_, sameLast, renders.plain rfl offset _⟩
      rw [resolveLine_used (same ▸ bound) used, succeeds]
      rfl
  | @defined environment after offset literal line rest output defined chain others ih =>
      subst same
      rcases ih (names.environment_defineAll defined literal) with
        ⟨command, last, succeeds, sameLast, renders⟩
      refine ⟨_, last, ?_, sameLast, renders.plain (names.slots_defineAll defined literal) offset _⟩
      rw [chain.resolveLine_eq, succeeds]
      rfl

theorem Fails.exists_resolveLine_eq {environment : Environment} {line : List (Located Lexeme)}
    (fails : Fails environment line) {names : Names} (same : names.environment = environment) :
    ∃ misplaced, resolveLine names 0 line = .error misplaced := by
  induction fails generalizing names with
  | here flawed =>
      subst same
      exact resolveLine_of_unresolved flawed.unresolved
  | @kept environment lexeme rest noConstant later ih =>
      rcases lexeme with ⟨offset, item | name | name⟩
      · rcases ih same with ⟨misplaced, fails⟩
        exact ⟨misplaced, attach_eq_error_iff.mpr fails⟩
      · rcases ih ((names.environment_slot name).trans same) with ⟨misplaced, fails⟩
        exact ⟨misplaced, attach_eq_error_iff.mpr fails⟩
      · exact absurd rfl (noConstant name)
  | used bound used later ih =>
      rcases ih same with ⟨misplaced, fails⟩
      refine ⟨misplaced, ?_⟩
      rw [resolveLine_used (same ▸ bound) used]
      exact attach_eq_error_iff.mpr fails
  | @defined environment offset literal line rest defined chain later ih =>
      subst same
      rcases ih (names.environment_defineAll defined literal) with ⟨misplaced, fails⟩
      refine ⟨misplaced, ?_⟩
      rw [chain.resolveLine_eq]
      exact attach_eq_error_iff.mpr fails

/-! ### Every line is read or fails -/

theorem Flawed.link {environment : Environment} (flawed : Flawed environment rest)
    (offset colonOffset : Nat) (name : String) :
    Flawed environment (⟨offset, .constant name⟩ :: ⟨colonOffset, colon⟩ :: rest) := by
  cases flawed with
  | unbound chain unbound used => exact .unbound chain.cons unbound used
  | valueless chain => exact .valueless chain.cons (by simp)
  | rebound chain inChain bound =>
      exact .rebound chain.cons (List.mem_cons_of_mem _ inChain) bound
  | misvalued chain _ noLiteral noConstant =>
      exact .misvalued chain.cons (by simp) noLiteral noConstant

theorem Chain.link {environment : Environment} {line : List (Located Lexeme)} {first : Nat}
    (chain : Chain environment line first defined literal rest) (offset colonOffset : Nat)
    (new : environment name = none) :
    Chain environment (⟨offset, .constant name⟩ :: ⟨colonOffset, colon⟩ :: line) offset
      (name :: defined) literal rest := by
  cases chain with
  | mk chain starts others means =>
      exact .mk chain.cons rfl (List.forall_mem_cons.mpr ⟨new, others⟩) means

theorem Means.chain {environment : Environment} (means : Means environment value rest literal)
    (offset colonOffset valueOffset : Nat) (new : environment name = none) :
    Chain environment (⟨offset, .constant name⟩ :: ⟨colonOffset, colon⟩ :: ⟨valueOffset, value⟩ ::
      rest) offset [name] literal rest :=
  .mk (.cons .nil) rfl (by simpa using new) means

/-- A constant is flawed or used, or it starts a chain. -/
theorem constant_cases (environment : Environment) (offset : Nat) (name : String)
    (rest : List (Located Lexeme)) :
    Flawed environment (⟨offset, .constant name⟩ :: rest) ∨
    (∃ literal, environment name = some literal ∧ ¬ FollowedByColon rest) ∨
    ∃ defined literal behind,
      Chain environment (⟨offset, .constant name⟩ :: rest) offset defined literal behind := by
  induction size : rest.length using Nat.strongRecOn generalizing offset name rest with
  | ind length ih =>
      by_cases followed : FollowedByColon rest
      · rcases rest with _ | ⟨⟨colonOffset, content⟩, rest⟩
        · cases followed
        · obtain rfl : content = colon := Option.some.inj followed
          rcases bound : environment name with _ | literal
          · rcases rest with _ | ⟨⟨valueOffset, value⟩, rest⟩
            · exact .inl (.valueless (.cons .nil) (by simp))
            · by_cases isLiteral : ∃ literal, value = .plain (.value literal)
              · rcases isLiteral with ⟨literal, rfl⟩
                exact .inr (.inr
                  ⟨_, _, _, Means.literal.chain offset colonOffset valueOffset bound⟩)
              · by_cases isConstant : ∃ inner, value = .constant inner
                · rcases isConstant with ⟨inner, rfl⟩
                  have shorter : rest.length < length := by
                    simp only [← size, List.length_cons]
                    omega
                  rcases ih rest.length shorter valueOffset inner rest rfl with
                    flawed | ⟨literal, innerBound, used⟩ | ⟨defined, literal, behind, chain⟩
                  · exact .inl (flawed.link offset colonOffset name)
                  · have means := Means.constant innerBound used
                    exact .inr (.inr ⟨_, _, _, means.chain offset colonOffset valueOffset bound⟩)
                  · exact .inr (.inr ⟨_, _, _, chain.link offset colonOffset bound⟩)
                · refine .inl (.misvalued (.cons .nil) (by simp) ?_ ?_)
                  · exact fun literal same => isLiteral ⟨literal, same⟩
                  · exact fun inner same => isConstant ⟨inner, same⟩
          · exact .inl (.rebound (.cons .nil) List.mem_cons_self (by simp [bound]))
      · cases bound : environment name with
        | none => exact .inl (.unbound .nil bound followed)
        | some literal => exact .inr (.inl ⟨literal, rfl, followed⟩)

theorem Chain.length_lt {environment : Environment} {line : List (Located Lexeme)}
    (chain : Chain environment line offset defined literal rest) : rest.length < line.length := by
  cases chain with
  | mk =>
      rw [List.length_append, List.length_cons]
      omega

theorem reads_or_fails (environment : Environment) (line : List (Located Lexeme)) :
    (∃ output after, Reads environment line output after) ∨ Fails environment line := by
  induction size : line.length using Nat.strongRecOn generalizing environment line with
  | ind length ih =>
      rcases line with _ | ⟨⟨offset, lexeme⟩, rest⟩
      · exact .inl ⟨[], environment, .nil⟩
      · have shorter : rest.length < length := by simp [← size]
        by_cases isConstant : ∃ name, lexeme = .constant name
        · rcases isConstant with ⟨name, rfl⟩
          rcases constant_cases environment offset name rest with
            flawed | ⟨literal, bound, used⟩ | ⟨defined, literal, behind, chain⟩
          · exact .inr (.here flawed)
          · rcases ih rest.length shorter environment rest rfl with ⟨output, after, reads⟩ | fails
            · exact .inl ⟨_, after, .used bound used reads⟩
            · exact .inr (.used bound used fails)
          · have shorter := size ▸ chain.length_lt
            rcases ih _ shorter (environment.bind defined literal) behind rfl with
              ⟨output, after, reads⟩ | fails
            · exact .inl ⟨_, after, .defined chain reads⟩
            · exact .inr (.defined chain fails)
        · have noConstant : ∀ name, lexeme ≠ .constant name :=
            fun name same => isConstant ⟨name, same⟩
          rcases ih rest.length shorter environment rest rfl with ⟨output, after, reads⟩ | fails
          · exact .inl ⟨_, after, .kept noConstant reads⟩
          · exact .inr (.kept noConstant fails)

theorem readsLines_or_failsLines (environment : Environment)
    (lines : List (List (Located Lexeme))) :
    (∃ outputs after, ReadsLines environment lines outputs after) ∨
      FailsLines environment lines := by
  induction lines generalizing environment with
  | nil => exact .inl ⟨[], environment, .nil⟩
  | cons line rest ih =>
      rcases reads_or_fails environment line with ⟨output, between, reads⟩ | fails
      · rcases ih between with ⟨outputs, after, others⟩ | fails
        · exact .inl ⟨_, after, .cons reads others⟩
        · exact .inr (.later reads fails)
      · exact .inr (.here fails)

/-! ### Scripts -/

theorem ReadsLines.exists_resolveLines_eq {environment after : Environment}
    {lines outputs : List (List (Located Lexeme))}
    (reads : ReadsLines environment lines outputs after) {names : Names}
    (same : names.environment = environment) :
    ∃ commands last, resolveLines names lines = .ok (commands, last) ∧
      names.slots.toList <+: last.slots.toList ∧
      ∀ table : Array String, last.slots.toList <+: table.toList →
        commands.map (·.map (written table)) = outputs.map (·.map some) := by
  induction reads generalizing names with
  | nil => exact ⟨[], names, rfl, List.prefix_rfl, fun _ _ => rfl⟩
  | cons first others ih =>
      rcases first.exists_resolveLine_eq same with ⟨command, between, resolves, sameNames, renders⟩
      rcases ih sameNames with ⟨commands, last, resolvesOthers, grows, spells⟩
      refine ⟨command :: commands, last, ?_, renders.grows.trans grows, ?_⟩
      · simp only [resolveLines, resolves]
        change (resolveLines between _).bind _ = _
        rw [resolvesOthers]
        rfl
      · intro table starts
        have spellsFirst : command.map (written table) = _ :=
          renders.spells table (grows.trans starts)
        rw [List.map_cons, List.map_cons, spellsFirst, spells table starts]

theorem FailsLines.exists_resolveLines_eq {environment : Environment}
    {lines : List (List (Located Lexeme))} (fails : FailsLines environment lines) {names : Names}
    (same : names.environment = environment) :
    ∃ misplaced, resolveLines names lines = .error misplaced := by
  induction fails generalizing names with
  | here fails =>
      rcases fails.exists_resolveLine_eq same with ⟨misplaced, failsLine⟩
      refine ⟨misplaced, ?_⟩
      simp only [resolveLines, failsLine]
      rfl
  | later first fails ih =>
      rcases first.exists_resolveLine_eq same with ⟨command, between, resolves, sameNames, _⟩
      rcases ih sameNames with ⟨misplaced, failsOthers⟩
      refine ⟨misplaced, ?_⟩
      simp only [resolveLines, resolves]
      change (resolveLines between _).bind _ = _
      rw [failsOthers]
      rfl

section Source

variable {source : String} {lines : List (List (Located Lexeme))}

theorem ReadsLines.exists_read_eq (scanned : readLines source.toList = .ok lines)
    {outputs : List (List (Located Lexeme))} {after : Environment}
    (reads : ReadsLines .empty (lines.filter (!·.isEmpty)) outputs after) :
    ∃ script, read source = .ok script ∧ script.WrittenAs outputs := by
  have same : ({} : Names).environment = .empty := rfl
  rcases reads.exists_resolveLines_eq same with ⟨commands, last, resolves, _, spells⟩
  refine ⟨⟨commands, last.slots⟩, ?_, spells last.slots List.prefix_rfl⟩
  simp only [read, scanned]
  change ((resolveLines _ _).bind _).mapError _ = _
  rw [resolves]
  rfl

theorem FailsLines.exists_read_eq (scanned : readLines source.toList = .ok lines)
    (fails : FailsLines .empty (lines.filter (!·.isEmpty))) :
    ∃ error, read source = .error error := by
  have same : ({} : Names).environment = .empty := rfl
  rcases fails.exists_resolveLines_eq same with ⟨misplaced, failsLines⟩
  refine ⟨.ofMisplaced source.toList misplaced, ?_⟩
  simp only [read, scanned]
  change ((resolveLines _ _).bind _).mapError _ = _
  rw [failsLines]
  rfl

end Source

/-- An accepted script is written as its lines are read. -/
theorem exists_writtenAs {source : String} {script : Script} (reads : read source = .ok script) :
    ∃ lines outputs after, readLines source.toList = .ok lines ∧
      ReadsLines .empty (lines.filter (!·.isEmpty)) outputs after ∧ script.WrittenAs outputs := by
  rcases exists_read_eq_iff.mp ⟨script, reads, rfl, rfl⟩ with ⟨lines, _, scanned, _⟩
  rcases readsLines_or_failsLines .empty (lines.filter (!·.isEmpty)) with
    ⟨outputs, after, readsLines⟩ | fails
  · rcases readsLines.exists_read_eq scanned with ⟨same, readsSame, writtenAs⟩
    cases reads.symm.trans readsSame
    exact ⟨lines, outputs, after, scanned, readsLines, writtenAs⟩
  · rcases fails.exists_read_eq scanned with ⟨error, refuses⟩
    cases reads.symm.trans refuses

/--
The commands of an accepted source are its lines with something in them as they are read from left
to right, constants replaced by their values. A source whose lines can be scanned is refused
exactly if that reading meets a constant that is used without a value, defined without one, defined
though it had one before its chain, or defined by what is neither a literal nor a constant.
-/
theorem constants_resolved (source : String) :
    (∀ script, read source = .ok script →
      ∃ lines outputs after, readLines source.toList = .ok lines ∧
        ReadsLines .empty (lines.filter (!·.isEmpty)) outputs after ∧ script.WrittenAs outputs) ∧
    ∀ lines, readLines source.toList = .ok lines →
      (∀ outputs after, ReadsLines .empty (lines.filter (!·.isEmpty)) outputs after →
        ∃ script, read source = .ok script ∧ script.WrittenAs outputs) ∧
      ((∃ error, read source = .error error) ↔
        FailsLines .empty (lines.filter (!·.isEmpty))) := by
  constructor
  · intro script reads
    exact exists_writtenAs reads
  · intro lines scanned
    refine ⟨fun outputs after reads => reads.exists_read_eq scanned, ?_, ?_⟩
    · rintro ⟨error, refuses⟩
      rcases readsLines_or_failsLines .empty (lines.filter (!·.isEmpty)) with
        ⟨outputs, after, readsLines⟩ | fails
      · rcases readsLines.exists_read_eq scanned with ⟨script, reads, _⟩
        cases refuses.symm.trans reads
      · exact fails
    · intro fails
      exact fails.exists_read_eq scanned

/-- A chain whose names are used on a later line, and a name that a later chain defines again. -/
theorem constants_resolved_of_chains :
    (let source := "#a : #b : ~1 $x\n\n$y #b $x #c : #a"
      ∃ script, read source = .ok script ∧
        ∃ lines outputs after, readLines source.toList = .ok lines ∧
          ReadsLines .empty (lines.filter (!·.isEmpty)) outputs after ∧
          script.WrittenAs outputs) ∧
    (let source := "#a : #a : ~1 #a\n#b : #a : ~2"
      ∃ lines, readLines source.toList = .ok lines ∧ (∃ error, read source = .error error) ∧
        FailsLines .empty (lines.filter (!·.isEmpty))) := by
  constructor
  · intro source
    have accepted : (read source).isOk = true := by decide +kernel
    rcases reads : read source with error | script
    · rw [reads] at accepted
      cases accepted
    · exact ⟨script, rfl, (constants_resolved source).1 script reads⟩
  · intro source
    have refused : (read source).isOk = false := by decide +kernel
    have scanned : (readLines source.toList).isOk = true := by decide +kernel
    rcases reads : read source with error | script
    · rcases lines : readLines source.toList with misplaced | found
      · rw [lines] at scanned
        cases scanned
      · have resolution := ((constants_resolved source).2 found lines).2
        exact ⟨found, rfl, ⟨error, rfl⟩, resolution.mp ⟨error, reads⟩⟩
    · rw [reads] at refused
      cases refused

end Script

end Esoterica
