import Esoterica.Script.Scan

/-!
# Resolving names

Variables are numbered in the order of their first appearance. `#name : value` defines a constant
and is replaced by the value, which may itself be a constant that is used or defined there; any
other `#name` is replaced by the value that was defined before it. No constant that has a value can
be defined again.
-/

namespace Esoterica

namespace Script

/-- What names stand for: values of constants, latest first, and variables by number. -/
structure Names where
  constants : List (String × Literal) := []
  slots : Array String := #[]

namespace Names

/-- Gives a constant a value. -/
def define (names : Names) (name : String) (literal : Literal) : Names :=
  { names with constants := (name, literal) :: names.constants }

/-- The number of a variable; one that was not seen before gets the next. -/
def slot (names : Names) (name : String) : Nat × Names :=
  match names.slots.idxOf? name with
  | some slot => (slot, names)
  | none => (names.slots.size, { names with slots := names.slots.push name })

end Names

/-- The value of a constant, and how many of the lexemes behind its name were used to define it. -/
structure Resolved where
  literal : Literal
  used : Nat
  names : Names

/-- Resolves a constant that stands at an offset before the given rest of its line. -/
def resolveConstant (names : Names) (offset : Nat) (name : String) :
    List (Located Lexeme) → Except Misplaced Resolved
  | ⟨_, .plain (.operator ':')⟩ :: [] => .error ⟨.incompleteCommand, offset⟩
  | ⟨_, .plain (.operator ':')⟩ :: value :: rest =>
    if (names.constants.lookup name).isSome then
      .error ⟨.duplicateConstant name, offset⟩
    else
      match value.content with
      | .plain (.value literal) => .ok ⟨literal, 2, names.define name literal⟩
      | .constant inner => do
        let resolved ← resolveConstant names value.offset inner rest
        return ⟨resolved.literal, resolved.used + 2, resolved.names.define name resolved.literal⟩
      | other => .error ⟨.invalidConstantValue name other.describe, value.offset⟩
  | _ =>
    match names.constants.lookup name with
    | some literal => .ok ⟨literal, 0, names⟩
    | none => .error ⟨.unknownConstant name, offset⟩

/-- Resolves a line of which the first `skip` lexemes were used before. -/
def resolveLine (names : Names) :
    (skip : Nat) → List (Located Lexeme) → Except Misplaced (List (Located Token) × Names)
  | _, [] => .ok ([], names)
  | skip + 1, _ :: rest => resolveLine names skip rest
  | 0, ⟨offset, lexeme⟩ :: rest =>
    match lexeme with
    | .plain item => do
      let (tokens, names) ← resolveLine names 0 rest
      return (⟨offset, .plain item⟩ :: tokens, names)
    | .variable name => do
      let (slot, names) := names.slot name
      let (tokens, names) ← resolveLine names 0 rest
      return (⟨offset, .variable slot⟩ :: tokens, names)
    | .constant name => do
      let resolved ← resolveConstant names offset name rest
      let (tokens, names) ← resolveLine resolved.names resolved.used rest
      return (⟨offset, .plain (.value resolved.literal)⟩ :: tokens, names)

/-- Resolves lines in order; each takes over the names of those before it. -/
def resolveLines (names : Names) :
    List (List (Located Lexeme)) → Except Misplaced (List (List (Located Token)) × Names)
  | [] => .ok ([], names)
  | line :: rest => do
    let (command, names) ← resolveLine names 0 line
    let (commands, names) ← resolveLines names rest
    return (command :: commands, names)

end Script

/-- A script: its commands and the names of its variables by number. -/
structure Script where
  commands : List (List (Script.Located Script.Token))
  variableNames : Array String

namespace Script

/-- Reads a script; every line with something in it is a command. -/
def read (source : String) : Except SyntaxError Script :=
  let text := source.toList
  let result : Except Misplaced Script := do
    let lines ← readLines text
    let (commands, names) ← resolveLines {} (lines.filter (!·.isEmpty))
    return { commands, variableNames := names.slots }
  result.mapError (.ofMisplaced text)

/-- One line for each command, with a bar between tokens. -/
def describe (script : Script) : String :=
  String.join (script.commands.map fun command =>
    " | ".intercalate (command.map (·.content.describe)) ++ "\n")

end Script

end Esoterica
