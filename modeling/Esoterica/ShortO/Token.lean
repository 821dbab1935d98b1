import Esoterica.ShortO.Value
import Esoterica.Text.Quoted

/-!
# Tokens of the stack language

Text outside blocks is printed; inside a block there are values to push, operators and jumps to
markers.
-/

namespace Esoterica

namespace ShortO

inductive Token where
  | text (text : String)
  | value (value : Value)
  | operator (symbol : Char)
  | jump (name : String)
deriving DecidableEq

namespace Token

/-- The text of a token in reports. -/
def describe : Token → String
  | text t => "TXT: " ++ quoteText t
  | value (.text t) => "VAL: " ++ quoteText t
  | value (.number n) => "VAL: " ++ n.toText
  | operator symbol => "OPR: " ++ symbol.toString
  | jump name => "JMP: " ++ name

end Token

end ShortO

end Esoterica
