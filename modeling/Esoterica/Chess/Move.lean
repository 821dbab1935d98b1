/-!
# Moves

A move in algebraic notation: the piece's letter, `x` for a capture, the target square, `+` for a
check and, for a pawn, the piece it becomes after `=`. Such a move keeps the new piece only.
-/

namespace Esoterica

namespace Chess

inductive Piece where
  | pawn
  | knight
  | bishop
  | rook
  | queen
  | king
deriving DecidableEq

namespace Piece

/-- The letter of a piece; a pawn has none. -/
def letter? : Piece → Option Char
  | pawn => none
  | knight => some 'N'
  | bishop => some 'B'
  | rook => some 'R'
  | queen => some 'Q'
  | king => some 'K'

def ofLetter? : Char → Option Piece
  | 'N' => some knight
  | 'B' => some bishop
  | 'R' => some rook
  | 'Q' => some queen
  | 'K' => some king
  | _ => none

/-- The letter of a piece as text. -/
def render (piece : Piece) : List Char :=
  piece.letter?.toList

end Piece

structure Square where
  file : Fin 8
  rank : Fin 8
deriving DecidableEq

namespace Square

/-- Files are the letters from `a` to `h`, ranks the digits from `1` to `8`. -/
def ofChars? (file rank : Char) : Option Square :=
  if inBoard : 'a'.toNat ≤ file.toNat ∧ file.toNat ≤ 'h'.toNat ∧
      '1'.toNat ≤ rank.toNat ∧ rank.toNat ≤ '8'.toNat then
    some {
      file := ⟨file.toNat - 'a'.toNat, by have : 'h'.toNat = 'a'.toNat + 7 := rfl; omega⟩
      rank := ⟨rank.toNat - '1'.toNat, by have : '8'.toNat = '1'.toNat + 7 := rfl; omega⟩ }
  else
    none

def render (square : Square) : List Char :=
  [Char.ofNat ('a'.toNat + square.file), Char.ofNat ('1'.toNat + square.rank)]

/-- How far the file is ahead of the rank. -/
def difference (square : Square) : Int :=
  (square.file : Int) - (square.rank : Int)

end Square

structure Move where
  /-- The piece that moves, or that a pawn becomes. -/
  piece : Piece
  square : Square
  check : Bool
  capture : Bool
  promotion : Bool
deriving DecidableEq

namespace Move

/-- A pawn becomes another piece. -/
def Legal (move : Move) : Prop :=
  move.promotion = true → move.piece ≠ .pawn

/-- The piece named at the start of a text, a pawn if there is no letter, and what follows. -/
def splitPiece (text : List Char) : Piece × List Char :=
  match text with
  | c :: rest =>
    match Piece.ofLetter? c with
    | some piece => (piece, rest)
    | none => (.pawn, text)
  | [] => (.pawn, text)

/-- Whether a text starts with a mark, and what follows. -/
def splitMark (mark : Char) (text : List Char) : Bool × List Char :=
  match text with
  | c :: rest => if c = mark then (true, rest) else (false, text)
  | [] => (false, text)

/-- The square at the start of a text, and what follows. -/
def splitSquare? : List Char → Option (Square × List Char)
  | file :: rank :: rest => (Square.ofChars? file rank).map (·, rest)
  | _ => none

/-- The move that a text denotes. -/
def parse? (text : List Char) : Option Move := do
  let (piece, rest) := splitPiece text
  let (capture, rest) := splitMark 'x' rest
  let (square, rest) ← splitSquare? rest
  let (check, rest) := splitMark '+' rest
  match rest with
  | [] => some { piece, square, check, capture, promotion := false }
  | ['=', letter] =>
    if piece = .pawn then
      let piece ← Piece.ofLetter? letter
      some { piece, square, check, capture, promotion := true }
    else
      none
  | _ => none

/-- The text of a move. -/
def render (move : Move) : List Char :=
  let target :=
    (if move.capture then ['x'] else []) ++ move.square.render ++
      (if move.check then ['+'] else [])
  if move.promotion then target ++ '=' :: move.piece.render else move.piece.render ++ target

/-- A capture or a check. -/
def isFlagged (move : Move) : Bool :=
  move.check || move.capture

/-- The number a move stands for: that of its square, 64 more for a check, 128 for a capture. -/
def parameter (move : Move) : Nat :=
  move.square.file * 8 + move.square.rank + (if move.check then 64 else 0) +
    (if move.capture then 128 else 0)

end Move

end Chess

end Esoterica
