import Esoterica.CommandLine.Arguments
import Esoterica.Text.Blank

/-!
# Settings of the environment

Variables of the environment can change the defaults of the options. A value that cannot be read is
as good as none.
-/

namespace Esoterica

namespace Settings

/-- The number that a variable holds, with blank characters around it left out. -/
def number? (bound : Nat) (value : Option String) : Option Nat := do
  readUnsigned? bound (trimBlanks (← value).toList)

def timeSliceName : String :=
  "ESOLANG_TIME_SLICE_MS"

def stepBudgetName : String :=
  "ESOLANG_STEP_BUDGET"

def maxStackSizeName : String :=
  "ESOLANG_MAX_STACK_SIZE"

/-- The default options, given the values of the three variables. -/
def options (timeSlice stepBudget maxStackSize : Option String) : Options :=
  let standard : Options := {}
  { standard with
    timeSlice := (number? UInt64.size timeSlice).getD standard.timeSlice
    maxStackSize := (number? UInt64.size maxStackSize).getD standard.maxStackSize }.withStepBudget
      ((number? UInt32.size stepBudget).getD standard.stepBudget)

/-- The default options, given how to look up variables of the environment. -/
def ofEnvironment {M : Type → Type} [Monad M] (lookUp : String → M (Option String)) :
    M Options := do
  let timeSlice ← lookUp timeSliceName
  let stepBudget ← lookUp stepBudgetName
  let maxStackSize ← lookUp maxStackSizeName
  return options timeSlice stepBudget maxStackSize

end Settings

end Esoterica
