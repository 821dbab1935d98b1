import Esoterica.Text.Quoted

/-!
# Parts of command scripts

A command is made of keys, literal values, variables, info names, operators, brackets and the arrow
`->`. In the source there are also constants, which stand for values, and variables go by their
names; in a script that has been read, constants are gone and variables are numbered.
-/

namespace Esoterica

namespace Script

/-- A value written in a script. -/
inductive Literal where
  | number (value : Nat)
  | text (content : String)
deriving DecidableEq

namespace Literal

/-- Numbers are in base sixteen. -/
def describe : Literal → String
  | number value => String.ofList ('~' :: Nat.toDigits 16 value)
  | text content => quoteText content

end Literal

/-- A part of a command that means the same everywhere. -/
inductive Item where
  | key (name : String)
  | value (literal : Literal)
  | info (name : String)
  | operator (symbol : Char)
  | openBracket (bracket : Char)
  | closeBracket (bracket : Char)
  | arrow
deriving DecidableEq

namespace Item

def describe : Item → String
  | key name => "KEY: " ++ name
  | value literal => "VAL: " ++ literal.describe
  | info name => "INF: " ++ name
  | operator symbol => "OPR: " ++ symbol.toString
  | openBracket bracket => "OBR: " ++ bracket.toString
  | closeBracket bracket => "CBR: " ++ bracket.toString
  | arrow => "EOC"

end Item

/-- A part of a command as it is written. -/
inductive Lexeme where
  | plain (item : Item)
  | variable (name : String)
  | constant (name : String)
deriving DecidableEq

namespace Lexeme

def describe : Lexeme → String
  | plain item => item.describe
  | .variable name => "$" ++ name
  | constant name => "#" ++ name

end Lexeme

/-- A part of a command that has been read. -/
inductive Token where
  | plain (item : Item)
  /-- A variable by its number. -/
  | variable (slot : Nat)
deriving DecidableEq

namespace Token

def describe : Token → String
  | plain item => item.describe
  | .variable slot => "VAR: " ++ toString slot

end Token

/-- Something with the position of its first character, counted from one. -/
structure Located (α : Type) where
  offset : Nat
  content : α
deriving DecidableEq

end Script

end Esoterica
