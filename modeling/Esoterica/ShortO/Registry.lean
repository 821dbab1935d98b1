import Esoterica.ShortO.Operator

/-!
# Registries

A registry says what symbols stand for: the operators of the language or any other actions. A symbol
stands for one action at most, but an action may have several symbols.
-/

namespace Esoterica

namespace ShortO

/-- What a symbol stands for: an action, and its name in listings. -/
structure Registry.Entry where
  name : String
  apply : StackAction Flow

structure Registry where
  entries : List (Char × Registry.Entry) := []

/-- An operator as registries hold it. -/
def Operator.entry (operator : Operator) : Registry.Entry where
  name := operator.name
  apply := operator.apply

namespace Registry

def find? (registry : Registry) (symbol : Char) : Option Entry :=
  registry.entries.lookup symbol

def contains (registry : Registry) (symbol : Char) : Bool :=
  (registry.find? symbol).isSome

/-- Gives a symbol an entry, in place of the one it had. -/
def register (registry : Registry) (symbol : Char) (entry : Entry) : Registry where
  entries := registry.entries.filter (·.1 != symbol) ++ [(symbol, entry)]

/-- Keeps the symbols that pass a test. -/
def restrict (registry : Registry) (keep : Char → Bool) : Registry where
  entries := registry.entries.filter (keep ·.1)

/-- An entry of a registry as a listing shows it. -/
def describe (symbol : Char) (entry : Entry) : String :=
  "Operator \x7b symbol: " ++ quoteChar symbol ++ ", name: " ++ quoteText entry.name ++ " \x7d"

/-- The usual symbols of the operators. -/
def symbols : List (Char × Operator) :=
  [('+', .add), ('-', .subtract), ('*', .multiply), ('/', .divide), ('%', .remainder),
    ('~', .toNumber), ('\x27', .toCharacter), (',', .print), ('!', .not), ('X', .drop),
    ('^', .copy), ('S', .toText), ('N', .characterCodes), ('>', .skipIf), ('.', .readCharacter),
    ('=', .compare), ('v', .reverse), ('_', .readText), (':', .readNumber), ('D', .deleteOutput),
    ('T', .isText), ('C', .clearOutput), ('L', .length), ('|', .or), ('&', .and), ('?', .random),
    ('°', .floor), ('l', .stackLength)]

/-- All operators under their usual symbols. -/
def standard : Registry where
  entries := symbols.map fun (symbol, operator) => (symbol, operator.entry)

end Registry

end ShortO

end Esoterica
