import Esoterica.Chess.Move
import Esoterica.Machine.Program
import Esoterica.Text.Word

/-!
# Games

A game is a sequence of words between blank characters: moves, the two castlings and exactly one
result, which need not come last. A word that is no part of a game is reported as a whole, with the
position of its first character.
-/

namespace Esoterica

namespace Chess

inductive Castling where
  | short
  | long
deriving DecidableEq

inductive Result where
  | checkmate
  | draw
deriving DecidableEq

inductive Token where
  | move (played : Move)
  | castling (side : Castling)
  | result (outcome : Result)
deriving DecidableEq

namespace Token

def ofWord? (word : List Char) : Option Token :=
  if word = "#".toList then some (result .checkmate)
  else if word = "1/2".toList then some (result .draw)
  else if word = "0-0".toList then some (castling .short)
  else if word = "0-0-0".toList then some (castling .long)
  else (Move.parse? word).map move

def render : Token → List Char
  | move played => played.render
  | castling .short => "0-0".toList
  | castling .long => "0-0-0".toList
  | result .checkmate => "#".toList
  | result .draw => "1/2".toList

def text (token : Token) : String :=
  String.ofList token.render

def isResult : Token → Bool
  | result _ => true
  | move _ | castling _ => false

end Token

/-- The tokens of words, and whether a result is among them or came before. -/
def readWords (hasResult : Bool) : List Word → Except SyntaxError (List Token × Bool)
  | [] => .ok ([], hasResult)
  | word :: rest =>
    match Token.ofWord? word.text with
    | none => .error (word.error .invalidMove)
    | some token =>
      if token.isResult && hasResult then .error (word.error .duplicateResult)
      else do
        let (tokens, hasResult) ← readWords (hasResult || token.isResult) rest
        return (token :: tokens, hasResult)

/-- Reads a game. -/
def read (source : String) : Except SyntaxError (Program Token) := do
  let text := source.toList
  let (tokens, hasResult) ← readWords false (Word.split 1 text)
  if hasResult then
    return { tokens := tokens.toArray }
  else
    throw (.ofMisplaced text ⟨.missingResult, text.length⟩)

end Chess

end Esoterica
