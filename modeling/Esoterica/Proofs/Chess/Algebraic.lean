import Esoterica.Chess.Game

/-!
# Algebraic notation

Which words denote a move, said with the characters that stand in them. A move is denoted by its
text alone, and every word of the notation is the text of a move.
-/

namespace Esoterica

namespace Chess

/-- A mark that may stand in a word. -/
def mark (c : Char) (present : Bool) : List Char :=
  if present then [c] else []

namespace Piece

def letters : List Char :=
  ['N', 'B', 'R', 'Q', 'K']

theorem ofLetter?_eq_some_iff {c : Char} {piece : Piece} :
    ofLetter? c = some piece ↔ piece.letter? = some c := by
  constructor
  · intro named
    unfold ofLetter? at named
    split at named <;> cases named <;> rfl
  · intro letter
    cases piece <;> cases letter <;> rfl

theorem render_pawn : pawn.render = [] := rfl

theorem render_of_letter? {c : Char} {piece : Piece} (letter : piece.letter? = some c) :
    piece.render = [c] := by
  rw [render, letter, Option.toList_some]

theorem letter?_isSome_iff {piece : Piece} : piece.letter?.isSome ↔ piece ≠ pawn := by
  cases piece <;> simp [letter?]

theorem exists_letter?_iff {c : Char} :
    (∃ piece : Piece, piece.letter? = some c) ↔ c ∈ letters := by
  constructor
  · rintro ⟨piece, letter⟩
    cases piece <;> cases letter <;> decide
  · intro isLetter
    simp only [letters, List.mem_cons, List.not_mem_nil, or_false] at isLetter
    rcases isLetter with rfl | rfl | rfl | rfl | rfl
    · exact ⟨knight, rfl⟩
    · exact ⟨bishop, rfl⟩
    · exact ⟨rook, rfl⟩
    · exact ⟨queen, rfl⟩
    · exact ⟨king, rfl⟩

end Piece

namespace Square

def files : List Char :=
  ['a', 'b', 'c', 'd', 'e', 'f', 'g', 'h']

def ranks : List Char :=
  ['1', '2', '3', '4', '5', '6', '7', '8']

theorem ofChars?_eq_some_iff {file rank : Char} {square : Square} :
    ofChars? file rank = some square ↔ square.render = [file, rank] := by
  constructor
  · intro onBoard
    unfold ofChars? at onBoard
    split at onBoard
    case isTrue inBoard =>
      rcases Option.some.inj onBoard with rfl
      simp only [render]
      rw [Nat.add_sub_cancel' inBoard.1, Nat.add_sub_cancel' inBoard.2.2.1, Char.ofNat_toNat,
        Char.ofNat_toNat]
    case isFalse => cases onBoard
  · intro same
    rcases square with ⟨squareFile, squareRank⟩
    simp only [render, List.cons.injEq, and_true] at same
    rcases same with ⟨rfl, rfl⟩
    revert squareFile squareRank
    decide

theorem exists_render_iff {file rank : Char} :
    (∃ square : Square, square.render = [file, rank]) ↔ file ∈ files ∧ rank ∈ ranks := by
  have allFiles : files = (List.finRange 8).map
      fun i : Fin 8 => Char.ofNat ('a'.toNat + i) := by decide
  have allRanks : ranks = (List.finRange 8).map
      fun i : Fin 8 => Char.ofNat ('1'.toNat + i) := by decide
  rw [allFiles, allRanks]
  simp only [List.mem_map, List.mem_finRange, true_and]
  constructor
  · rintro ⟨⟨i, j⟩, same⟩
    simp only [render, List.cons.injEq, and_true] at same
    exact ⟨⟨i, same.1⟩, ⟨j, same.2⟩⟩
  · rintro ⟨⟨i, rfl⟩, ⟨j, rfl⟩⟩
    exact ⟨⟨i, j⟩, rfl⟩

end Square

namespace Move

/-- The words `[NBRQK]? x? [a-h][1-8] +?` and `x? [a-h][1-8] +? =[NBRQK]`. -/
inductive Algebraic : List Char → Prop where
  | plain (letter? : Option Char) (capture check : Bool) (file rank : Char)
      (isLetter : ∀ letter ∈ letter?, letter ∈ Piece.letters)
      (isFile : file ∈ Square.files) (isRank : rank ∈ Square.ranks) :
      Algebraic (letter?.toList ++ mark 'x' capture ++ [file, rank] ++ mark '+' check)
  | promotion (capture check : Bool) (file rank letter : Char)
      (isFile : file ∈ Square.files) (isRank : rank ∈ Square.ranks)
      (isLetter : letter ∈ Piece.letters) :
      Algebraic (mark 'x' capture ++ [file, rank] ++ mark '+' check ++ ['=', letter])

variable {text rest : List Char}

theorem eq_append_of_splitPiece {piece : Piece} (taken : splitPiece text = (piece, rest)) :
    text = piece.render ++ rest := by
  unfold splitPiece at taken
  split at taken
  · split at taken
    case h_1 named =>
      cases taken
      rw [Piece.render_of_letter? (Piece.ofLetter?_eq_some_iff.mp named)]
      rfl
    case h_2 => cases taken; rfl
  · cases taken
    rfl

theorem splitPiece_append (piece : Piece) (next : ∀ c ∈ rest.head?, Piece.ofLetter? c = none) :
    splitPiece (piece.render ++ rest) = (piece, rest) := by
  cases letter : piece.letter? with
  | some c => simp [Piece.render, letter, splitPiece, Piece.ofLetter?_eq_some_iff.mpr letter]
  | none =>
      have isPawn : piece = .pawn := by
        apply Decidable.byContradiction
        intro other
        simpa [letter] using Piece.letter?_isSome_iff.mpr other
      subst isPawn
      cases rest with
      | nil => rfl
      | cons c rest => simp [Piece.render, Piece.letter?, splitPiece, next c rfl]

theorem eq_append_of_splitMark {c : Char} {present : Bool}
    (taken : splitMark c text = (present, rest)) : text = mark c present ++ rest := by
  unfold splitMark at taken
  split at taken
  · split at taken
    case isTrue same => cases taken; cases same; rfl
    case isFalse => cases taken; rfl
  · cases taken
    rfl

theorem splitMark_append {c : Char} (present : Bool) (next : c ∉ rest.head?) :
    splitMark c (mark c present ++ rest) = (present, rest) := by
  cases present with
  | true => simp [mark, splitMark]
  | false =>
      cases rest with
      | nil => rfl
      | cons d rest =>
          have other : d ≠ c := fun same => next (by simp [same])
          simp [mark, splitMark, other]

theorem splitSquare?_eq_some_iff {square : Square} :
    splitSquare? text = some (square, rest) ↔ text = square.render ++ rest := by
  constructor
  · intro taken
    unfold splitSquare? at taken
    split at taken
    · rcases Option.map_eq_some_iff.mp taken with ⟨found, onBoard, same⟩
      cases same
      rw [Square.ofChars?_eq_some_iff.mp onBoard]
      rfl
    · cases taken
  · rintro rfl
    have onBoard := Square.ofChars?_eq_some_iff.mpr (show square.render = [_, _] from rfl)
    simp only [Square.render, List.cons_append, List.nil_append, splitSquare?, onBoard,
      Option.map_some]

theorem render_eq (move : Move) :
    move.render =
      if move.promotion then
        mark 'x' move.capture ++ move.square.render ++ mark '+' move.check ++
          '=' :: move.piece.render
      else
        move.piece.render ++
          (mark 'x' move.capture ++ move.square.render ++ mark '+' move.check) := rfl

/-- The move that follows from its parts and from what stands behind them. -/
def ending? (piece : Piece) (capture : Bool) (square : Square) (check : Bool) :
    List Char → Option Move
  | [] => some { piece, square, check, capture, promotion := false }
  | ['=', letter] =>
    if piece = .pawn then do
      let piece ← Piece.ofLetter? letter
      some { piece, square, check, capture, promotion := true }
    else
      none
  | _ => none

theorem parse?_of_split {piece : Piece} {capture : Bool} {afterPiece afterCapture : List Char}
    (pieceTaken : splitPiece text = (piece, afterPiece))
    (captureTaken : splitMark 'x' afterPiece = (capture, afterCapture)) :
    parse? text = (splitSquare? afterCapture).bind fun (square, rest) =>
      ending? piece capture square (splitMark '+' rest).1 (splitMark '+' rest).2 := by
  unfold parse?
  simp only [pieceTaken, captureTaken]
  rfl

theorem legal_and_render_of_parse? {move : Move} (parsed : parse? text = some move) :
    move.Legal ∧ move.render = text := by
  rcases pieceTaken : splitPiece text with ⟨piece, afterPiece⟩
  rcases captureTaken : splitMark 'x' afterPiece with ⟨capture, afterCapture⟩
  rw [parse?_of_split pieceTaken captureTaken, Option.bind_eq_some_iff] at parsed
  rcases parsed with ⟨⟨square, afterSquare⟩, squareTaken, ending⟩
  rcases checkTaken : splitMark '+' afterSquare with ⟨check, afterCheck⟩
  simp only [checkTaken] at ending
  rw [eq_append_of_splitPiece pieceTaken, eq_append_of_splitMark captureTaken,
    splitSquare?_eq_some_iff.mp squareTaken, eq_append_of_splitMark checkTaken]
  unfold ending? at ending
  split at ending
  · cases ending
    simp [Legal, render_eq]
  · split at ending
    case isTrue isPawn =>
      rcases Option.bind_eq_some_iff.mp ending with ⟨became, named, same⟩
      cases same
      have letter := Piece.ofLetter?_eq_some_iff.mp named
      constructor
      · rintro - rfl
        cases letter
      · subst isPawn
        rw [render_eq, Piece.render_of_letter? letter]
        simp [Piece.render_pawn]
    case isFalse => cases ending
  · cases ending

/-- A square starts with a letter that names no piece and is no mark. -/
theorem head_of_square {square : Square} {c : Char} (first : c ∈ (square.render ++ rest).head?) :
    Piece.ofLetter? c = none ∧ c ≠ 'x' := by
  have all : ∀ file : Fin 8, Piece.ofLetter? (Char.ofNat ('a'.toNat + file)) = none ∧
      Char.ofNat ('a'.toNat + file) ≠ 'x' := by decide
  rcases Option.some.inj first with rfl
  exact all square.file

theorem parse?_append (piece : Piece) (capture : Bool) (square : Square) (check : Bool)
    (next : '+' ∉ rest.head?) :
    parse? (piece.render ++ (mark 'x' capture ++ (square.render ++ (mark '+' check ++ rest)))) =
      ending? piece capture square check rest := by
  have noMark : 'x' ∉ (square.render ++ (mark '+' check ++ rest)).head? := by
    intro first
    exact (head_of_square first).2 rfl
  have noPiece : ∀ c ∈ (mark 'x' capture ++ (square.render ++ (mark '+' check ++ rest))).head?,
      Piece.ofLetter? c = none := by
    cases capture with
    | true => exact fun c first => Option.some.inj first ▸ rfl
    | false => exact fun c first => (head_of_square first).1
  rw [parse?_of_split (splitPiece_append piece noPiece) (splitMark_append capture noMark),
    splitSquare?_eq_some_iff.mpr rfl, Option.bind_some]
  simp only [splitMark_append check next]

theorem parse?_render {move : Move} (legal : move.Legal) : parse? move.render = some move := by
  rcases move with ⟨piece, square, check, capture, promotion⟩
  cases promotion with
  | false =>
      have next : '+' ∉ ([] : List Char).head? := by simp
      have parsed := parse?_append piece capture square check next
      simpa [render_eq, ending?] using parsed
  | true =>
      rcases Option.isSome_iff_exists.mp (Piece.letter?_isSome_iff.mpr (legal rfl)) with ⟨c, letter⟩
      have next : '+' ∉ ['=', c].head? := by simp
      have parsed := parse?_append .pawn capture square check next
      rw [ending?, if_pos rfl, Piece.ofLetter?_eq_some_iff.mpr letter, Piece.render_pawn,
        List.nil_append] at parsed
      simpa [render_eq, Piece.render_of_letter? letter] using parsed

/-- A word denotes a move exactly if it is the move's text. -/
theorem parse?_eq_some_iff {move : Move} :
    parse? text = some move ↔ move.Legal ∧ move.render = text := by
  constructor
  · exact legal_and_render_of_parse?
  · rintro ⟨legal, rfl⟩
    exact parse?_render legal

theorem Algebraic.exists_move (algebraic : Algebraic text) :
    ∃ move : Move, move.Legal ∧ move.render = text := by
  cases algebraic with
  | plain letter? capture check file rank isLetter isFile isRank =>
      rcases Square.exists_render_iff.mpr ⟨isFile, isRank⟩ with ⟨square, written⟩
      have named : ∃ piece : Piece, piece.render = letter?.toList := by
        cases letter? with
        | none => exact ⟨.pawn, rfl⟩
        | some letter =>
            rcases Piece.exists_letter?_iff.mpr (isLetter letter rfl) with ⟨piece, named⟩
            exact ⟨piece, Piece.render_of_letter? named⟩
      rcases named with ⟨piece, named⟩
      refine ⟨⟨piece, square, check, capture, false⟩, by simp [Legal], ?_⟩
      simp [render_eq, named, written]
  | promotion capture check file rank letter isFile isRank isLetter =>
      rcases Square.exists_render_iff.mpr ⟨isFile, isRank⟩ with ⟨square, written⟩
      rcases Piece.exists_letter?_iff.mpr isLetter with ⟨piece, named⟩
      refine ⟨⟨piece, square, check, capture, true⟩, ?_, ?_⟩
      · rintro - rfl
        cases named
      · simp [render_eq, written, Piece.render_of_letter? named]

theorem algebraic_render {move : Move} (legal : move.Legal) : Algebraic move.render := by
  rcases move with ⟨piece, square, check, capture, promotion⟩
  rcases Square.exists_render_iff.mp ⟨square, rfl⟩ with ⟨isFile, isRank⟩
  cases promotion with
  | false =>
      have isLetter : ∀ letter ∈ piece.letter?, letter ∈ Piece.letters :=
        fun letter named => Piece.exists_letter?_iff.mp ⟨piece, named⟩
      rw [render_eq, if_neg Bool.false_ne_true, ← List.append_assoc, ← List.append_assoc]
      exact .plain piece.letter? capture check _ _ isLetter isFile isRank
  | true =>
      rcases Option.isSome_iff_exists.mp (Piece.letter?_isSome_iff.mpr (legal rfl)) with ⟨c, letter⟩
      have isLetter := Piece.exists_letter?_iff.mp ⟨piece, letter⟩
      rw [render_eq, if_pos rfl, Piece.render_of_letter? letter]
      exact .promotion capture check _ _ c isFile isRank isLetter

/--
The words that denote moves are those of the notation, and they stand for the legal moves one to
one: the text of a legal move denotes that move, and a word that denotes a move is the text of it,
and the move is legal.
-/
theorem algebraic_bijective :
    (∀ text, (∃ move, parse? text = some move) ↔ Algebraic text) ∧
    (∀ move : Move, move.Legal → parse? move.render = some move) ∧
    ∀ text move, parse? text = some move → move.Legal ∧ move.render = text := by
  refine ⟨?_, fun _ => parse?_render, fun _ _ => legal_and_render_of_parse?⟩
  intro text
  constructor
  · rintro ⟨move, parsed⟩
    rcases legal_and_render_of_parse? parsed with ⟨legal, rfl⟩
    exact algebraic_render legal
  · intro algebraic
    rcases algebraic.exists_move with ⟨move, legal, rfl⟩
    exact ⟨move, parse?_render legal⟩

/-- A pawn takes on the last rank, gives check and becomes a queen. -/
theorem algebraic_bijective_of_promotion :
    (Legal ⟨.queen, ⟨7, 7⟩, true, true, true⟩ ∧
      parse? (render ⟨.queen, ⟨7, 7⟩, true, true, true⟩) =
        some ⟨.queen, ⟨7, 7⟩, true, true, true⟩) ∧
    parse? "xh8+=Q".toList = some ⟨.queen, ⟨7, 7⟩, true, true, true⟩ ∧
      render ⟨.queen, ⟨7, 7⟩, true, true, true⟩ = "xh8+=Q".toList := by
  have legal : Legal ⟨.queen, ⟨7, 7⟩, true, true, true⟩ := by simp [Legal]
  have parsed : parse? "xh8+=Q".toList = some ⟨.queen, ⟨7, 7⟩, true, true, true⟩ := by decide
  exact ⟨⟨legal, algebraic_bijective.2.1 _ legal⟩, parsed,
    (algebraic_bijective.2.2 _ _ parsed).2⟩

end Move

namespace Token

/-- The words of a game. -/
inductive IsWord : List Char → Prop where
  | checkmate : IsWord "#".toList
  | draw : IsWord "1/2".toList
  | short : IsWord "0-0".toList
  | long : IsWord "0-0-0".toList
  | move {word : List Char} (algebraic : Move.Algebraic word) : IsWord word

/-- A pawn becomes another piece. -/
def Legal : Token → Prop
  | move played => played.Legal
  | castling _ | result _ => True

variable {word : List Char} {token : Token}

theorem ofWord?_render (token : Token) (legal : token.Legal) :
    ofWord? token.render = some token := by
  cases token with
  | move played =>
      have parsed := Move.parse?_render legal
      have other : ∀ {word : List Char}, Move.parse? word = none → played.render ≠ word := by
        rintro word unknown rfl
        rw [unknown] at parsed
        cases parsed
      rw [render, ofWord?, if_neg (other rfl), if_neg (other rfl), if_neg (other rfl),
        if_neg (other rfl), parsed, Option.map_some]
  | castling side => cases side <;> rfl
  | result outcome => cases outcome <;> rfl

/-- A word denotes a token exactly if it is the token's text. -/
theorem ofWord?_eq_some_iff : ofWord? word = some token ↔ token.Legal ∧ token.render = word := by
  constructor
  · intro denoted
    unfold ofWord? at denoted
    split at denoted
    next same =>
      cases denoted
      exact ⟨trivial, same.symm⟩
    split at denoted
    next same =>
      cases denoted
      exact ⟨trivial, same.symm⟩
    split at denoted
    next same =>
      cases denoted
      exact ⟨trivial, same.symm⟩
    split at denoted
    next same =>
      cases denoted
      exact ⟨trivial, same.symm⟩
    · rcases Option.map_eq_some_iff.mp denoted with ⟨played, parsed, rfl⟩
      exact Move.parse?_eq_some_iff.mp parsed
  · rintro ⟨legal, rfl⟩
    exact ofWord?_render token legal

theorem isWord_iff : IsWord word ↔ ∃ token, ofWord? word = some token := by
  constructor
  · intro isWord
    cases isWord with
    | checkmate => exact ⟨_, ofWord?_render (result .checkmate) trivial⟩
    | draw => exact ⟨_, ofWord?_render (result .draw) trivial⟩
    | short => exact ⟨_, ofWord?_render (castling .short) trivial⟩
    | long => exact ⟨_, ofWord?_render (castling .long) trivial⟩
    | move algebraic =>
        rcases algebraic.exists_move with ⟨played, legal, rfl⟩
        exact ⟨_, ofWord?_render (.move played) legal⟩
  · rintro ⟨token, denoted⟩
    rcases ofWord?_eq_some_iff.mp denoted with ⟨legal, rfl⟩
    cases token with
    | move played => exact .move (Move.algebraic_render legal)
    | castling side =>
        cases side with
        | short => exact .short
        | long => exact .long
    | result outcome =>
        cases outcome with
        | checkmate => exact .checkmate
        | draw => exact .draw

end Token

end Chess

end Esoterica
