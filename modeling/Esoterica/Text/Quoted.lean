import Esoterica.Text.Extender

/-!
# Quoted text

A text or a character in quotes, on one line and without anything that cannot be seen on its own.
The usual controls have short escapes; a character that has no visible form, or only changes the
character before it, is written as `\u{hex}`.
-/

namespace Esoterica

/-- A code point as `\u{hex}`, in lower case and without leading zeros. -/
def escapeCode (c : Char) : List Char :=
  '\\' :: 'u' :: '\x7b' :: (Nat.toDigits 16 c.toNat ++ ['\x7d'])

/-- A character as it stands between two marks of the given kind. -/
def escapeChar (mark c : Char) : List Char :=
  if c = mark ∨ c = '\\' then ['\\', c]
  else if c = '\x00' then ['\\', '0']
  else if c = '\t' then ['\\', 't']
  else if c = '\n' then ['\\', 'n']
  else if c = '\r' then ['\\', 'r']
  else if isExtender c || !isPrintable c then escapeCode c
  else [c]

/-- A text in double quotes. -/
def quoteText (text : String) : String :=
  String.ofList ('"' :: (text.toList.flatMap (escapeChar '"') ++ ['"']))

/-- A character in single quotes. -/
def quoteChar (c : Char) : String :=
  String.ofList ('\x27' :: (escapeChar '\x27' c ++ ['\x27']))

end Esoterica
