/-!
# Syntax errors

Why a source text was refused, where, and the part of the text around that place. All languages
share one list of causes and one wording.
-/

namespace Esoterica

inductive SyntaxCause where
  | unterminatedMarker
  | unterminatedJump
  | unterminatedBlock
  | unterminatedString
  | danglingEscape
  | invalidCharacter (c : Char)
  | duplicateMarker (name : String)
  | unknownMarker (name : String)
  | invalidMove
  | missingResult
  | duplicateResult
  | numberTooLarge
  | incompleteCommand
  | duplicateConstant (name : String)
  | unknownConstant (name : String)
  | invalidConstantValue (name value : String)
deriving DecidableEq

namespace SyntaxCause

def message : SyntaxCause → String
  | unterminatedMarker => "Marker has no defined ending"
  | unterminatedJump => "Jump has no defined ending"
  | unterminatedBlock => "Code block has no defined ending"
  | unterminatedString => "String isn't stopped"
  | danglingEscape => "No escaped character defined"
  | invalidCharacter c => "Invalid character `" ++ c.toString ++ "`"
  | duplicateMarker name => "The marker \"" ++ name ++ "\" has already been set"
  | unknownMarker name => "No marker for \"" ++ name ++ "\" detected"
  | invalidMove => "Invalid move"
  | missingResult => "Game has no ending"
  | duplicateResult => "Game has more than one ending"
  | numberTooLarge => "Number is too large"
  | incompleteCommand => "Incomplete command"
  | duplicateConstant name => "Constant \"" ++ name ++ "\" has already been defined"
  | unknownConstant name => "Constant \"" ++ name ++ "\" has not been defined"
  | invalidConstantValue name value =>
    "Constant \"" ++ name ++ "\" cannot be assigned to `" ++ value ++ "`"

end SyntaxCause

/-- A cause and the number of characters up to and including the one where it showed. -/
structure Misplaced where
  cause : SyntaxCause
  offset : Nat
deriving DecidableEq

structure SyntaxError where
  cause : SyntaxCause
  /-- The position of the offending character, counted from one; zero before the first. -/
  offset : Nat
  /-- The part of the source around the offset. -/
  excerpt : String
deriving DecidableEq

namespace SyntaxError

/-- How many characters an excerpt shows on each side of its offset. -/
def excerptRadius : Nat :=
  10

/-- The part of a source around an offset. -/
def excerptAt (source : List Char) (offset : Nat) : String :=
  String.ofList ((source.take (offset + excerptRadius)).drop (offset - excerptRadius))

/-- The error of a misplaced part of the source, with the excerpt around it. -/
def ofMisplaced (source : List Char) (misplaced : Misplaced) : SyntaxError where
  cause := misplaced.cause
  offset := misplaced.offset
  excerpt := excerptAt source misplaced.offset

def message (error : SyntaxError) : String :=
  error.cause.message ++ " at character " ++ toString error.offset ++ " (Parsing)\n\"" ++
    error.excerpt ++ "\""

end SyntaxError

end Esoterica
