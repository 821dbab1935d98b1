import Esoterica.Chess.Play
import Esoterica.Proofs.Machine.PlainRun
import Esoterica.Proofs.Machine.Tape

/-!
# The output as a stack

A bishop writes the cell under the pointer at the end of the output, and another one takes
characters from there and puts the first of them into a cell. Whatever the output has in front of
it, what was written last is taken first, so cells that are written on the way to the right are
found unchanged on the way back: a character has the code of the cell that it was written from.

A row of writing moves that is followed by as many taking moves is such a row inside one writing
move and one taking move. This is the induction below.
-/

namespace Esoterica

namespace Console

theorem charAt?_eq (console : Console) (index : Nat) :
    console.charAt? index = console.output.toList[index]? := by
  rw [charAt?, String.Slice.front?_eq, String.toList_copy_drop, List.head?_drop]

theorem toList_output_writeChar (console : Console) (c : Char) :
    (console.writeChar c).output.toList = console.output.toList ++ [c] := by
  simp [writeChar, write]

theorem toList_output_eraseLast (console : Console) (count : Nat) :
    (console.eraseLast count).output.toList =
      console.output.toList.take (console.length - count) := by
  have length : console.output.toList.length = console.length := String.length_toList
  rw [eraseLast, keepFirst]
  split
  case isTrue short => rw [List.take_of_length_le (by omega)]
  case isFalse long =>
    rw [String.toList_copy_dropEnd, length]
    congr 1
    omega

end Console

namespace Chess

open TapeState

/-- `Ba2`: writes the cell. -/
def writeMove : Token :=
  .move ⟨.bishop, ⟨0, 1⟩, false, false, false⟩

/-- `Ra2`: goes one cell to the right. -/
def rightMove : Token :=
  .move ⟨.rook, ⟨0, 1⟩, false, false, false⟩

/-- `Rb1`: goes one cell to the left. -/
def leftMove : Token :=
  .move ⟨.rook, ⟨1, 0⟩, false, false, false⟩

/-- `Ba1`: takes the last character back. -/
def takeMove : Token :=
  .move ⟨.bishop, ⟨0, 0⟩, false, false, false⟩

example : ["Ba2", "Ra2", "Rb1", "Ba1"].map (Token.ofWord? ·.toList) =
    [writeMove, rightMove, leftMove, takeMove].map some := by decide

/-- Cells are written from left to right, and then they are taken back from right to left. -/
def writeAndTake (count : Nat) : List Token :=
  (List.replicate count [writeMove, rightMove]).flatten ++
    (List.replicate count [leftMove, takeMove]).flatten

theorem writeAndTake_succ (count : Nat) :
    writeAndTake (count + 1) =
      [writeMove, rightMove] ++ writeAndTake count ++ [leftMove, takeMove] := by
  rw [writeAndTake, writeAndTake, List.replicate_succ, List.replicate_succ']
  simp

theorem length_writeAndTake (count : Nat) : (writeAndTake count).length = 4 * count := by
  induction count with
  | zero => rfl
  | succ count ih =>
      rw [writeAndTake_succ]
      simp [ih]
      omega

/-! ### Moves -/

section moves

variable (machine : Machine Token TapeState)

/-- The machine with another tape. -/
def withTape (tape : Tape) : Machine Token TapeState :=
  { machine with state := { machine.state with tape } }

/-- The character whose code is in the cell under the pointer. -/
def cellChar : Char :=
  Char.ofNat machine.state.tape.cell.toNat

theorem toNat_cellChar : (cellChar machine).toNat = machine.state.tape.cell.toNat := by
  have below := machine.state.tape.cell.toNat_lt
  have valid : machine.state.tape.cell.toNat.isValidChar := .inl (by omega)
  rw [cellChar, Char.ofNat, dif_pos valid]
  rfl

theorem perform_writeMove :
    language.perform writeMove machine =
      (.ok .proceed, { machine with console := machine.console.writeChar (cellChar machine) }) :=
  rfl

theorem perform_rightMove :
    language.perform rightMove machine =
      (.ok .proceed, withTape machine (machine.state.tape.move 1)) :=
  rfl

theorem perform_leftMove :
    language.perform leftMove machine =
      (.ok .proceed, withTape machine (machine.state.tape.move (-1))) :=
  rfl

/-- The code that is taken back with a number of characters, at least one. -/
def takenCode (amount : Nat) : Nat :=
  ((if amount ≤ machine.console.length then
      machine.console.charAt? (machine.console.length - amount)
    else none).map Char.toNat).getD 0

/-- The machine after characters were taken back. -/
def takenBack (amount : Nat) : Machine Token TapeState :=
  { withTape machine (machine.state.tape.store (takenCode machine amount)) with
    console := machine.console.eraseLast amount }

theorem takeBack_eq {amount : Nat} (positive : 1 ≤ amount) :
    takeBack amount machine = .ok () (takenBack machine amount) := by
  have nonzero : amount ≠ 0 := by omega
  unfold takeBack
  simp only [if_neg nonzero]
  rfl

theorem perform_takeMove :
    language.perform takeMove machine = (.ok .proceed, takenBack machine 1) :=
  rfl

theorem toNat_cell_takenBack (amount : Nat) :
    (takenBack machine amount).state.tape.cell.toNat = takenCode machine amount % 256 := by
  have stored : ((takenBack machine amount).state.tape.cell.toNat : Int) = _ :=
    machine.state.tape.toNat_cell_store (takenCode machine amount)
  omega

variable {machine}

theorem takenCode_of_getElem? {amount : Nat} {c : Char}
    (enough : amount ≤ machine.console.output.toList.length)
    (stands : machine.console.output.toList[machine.console.output.toList.length - amount]? =
      some c) :
    takenCode machine amount = c.toNat := by
  rw [String.length_toList] at enough stands
  rw [takenCode, Console.length, if_pos enough, Console.charAt?_eq, stands]
  rfl

theorem takenCode_of_lt {amount : Nat}
    (tooMany : machine.console.output.toList.length < amount) : takenCode machine amount = 0 := by
  rw [String.length_toList] at tooMany
  rw [takenCode, Console.length, if_neg (Nat.not_le.mpr tooMany)]
  rfl

end moves

/-! ### Several characters -/

section several

variable {machine : Machine Token TapeState} {move parameter : Move}

theorem takeParameter_eq (next : machine.program.current? = some (.move parameter)) :
    takeParameter machine = .ok parameter.parameter machine.behind := by
  have looks : (get : Instruction Token TapeState _) machine = .ok machine machine := rfl
  unfold takeParameter
  simp only [bind, EStateM.bind, looks, Program.next_of_current next]
  rfl

theorem perform_flagged (isBishop : move.piece = .bishop) (even : move.square.difference = 0)
    (flagged : move.isFlagged = true)
    (next : machine.program.current? = some (.move parameter))
    (positive : 1 ≤ parameter.parameter) :
    language.perform (.move move) machine =
      (.ok .proceed, takenBack machine.behind parameter.parameter) := by
  have amount : takeAmount move machine = .ok parameter.parameter machine.behind := by
    rw [takeAmount, if_pos flagged, takeParameter_eq next]
  have taken := takeBack_eq machine.behind positive
  have plays : execute (.move move) machine =
      .ok .proceed (takenBack machine.behind parameter.parameter) := by
    simp only [execute, play, isBishop, playBishop, even]
    simp only [Int.lt_irrefl, gt_iff_lt, if_false, bind, EStateM.bind, amount, taken]
    rfl
  simp only [Language.perform, language, plays]

end several

/-! ### What was written is taken back -/

/-- The machine has come to the same state and the same output. -/
structure Restored (before after : Machine Token TapeState) : Prop where
  state_eq : after.state = before.state
  output_eq : after.console.output = before.console.output

/-- One character is written and taken back, and in between the machine is restored. -/
theorem restored_of_inner {machine inner : Machine Token TapeState}
    (restored : Restored (withTape
      { machine with console := machine.console.writeChar (cellChar machine) }
      (machine.state.tape.move 1)) inner) :
    Restored machine (takenBack (withTape inner (inner.state.tape.move (-1))) 1) := by
  have tape : inner.state.tape.move (-1) = machine.state.tape := by
    rw [restored.state_eq]
    exact (machine.state.tape.move_move 1 (-1)).trans machine.state.tape.move_zero
  have loops : inner.state.loops = machine.state.loops := by rw [restored.state_eq]; rfl
  have output : inner.console.output.toList =
      machine.console.output.toList ++ [cellChar machine] := by
    rw [restored.output_eq]
    exact machine.console.toList_output_writeChar _
  have last : 1 ≤ inner.console.output.toList.length ∧
      inner.console.output.toList[inner.console.output.toList.length - 1]? =
        some (cellChar machine) := by simp [output]
  rw [tape]
  have code : takenCode (withTape inner machine.state.tape) 1 = machine.state.tape.cell.toNat :=
    (takenCode_of_getElem? last.1 last.2).trans (toNat_cellChar machine)
  constructor
  · change TapeState.mk (machine.state.tape.store (takenCode (withTape inner machine.state.tape) 1))
      inner.state.loops = _
    rw [code, machine.state.tape.store_cell, loops]
  · apply String.toList_injective
    have length : inner.console.length - 1 = machine.console.output.toList.length := by
      rw [Console.length, ← String.length_toList, output]
      simp
    change (inner.console.eraseLast 1).output.toList = _
    rw [Console.toList_output_eraseLast, output, length, List.take_left]

theorem proceeds_writeAndTake (count : Nat) {later : List Token}
    {machine : Machine Token TapeState}
    (ahead : machine.program.Ahead (writeAndTake count ++ later)) :
    ∃ after, language.Proceeds (writeAndTake count) machine after ∧ Restored machine after ∧
      after.program.Ahead later := by
  induction count generalizing machine later with
  | zero => exact ⟨machine, .nil, ⟨rfl, rfl⟩, ahead⟩
  | succ count ih =>
      rw [writeAndTake_succ] at ahead ⊢
      simp only [List.append_assoc, List.cons_append, List.nil_append] at ahead ⊢
      rcases Program.ahead_cons_iff.mp ahead with ⟨write, ahead⟩
      rcases Program.ahead_cons_iff.mp ahead with ⟨right, ahead⟩
      let written : Machine Token TapeState :=
        { machine.behind with console := machine.console.writeChar (cellChar machine) }
      let moved := withTape written.behind (machine.state.tape.move 1)
      obtain ⟨inner, proceeds, restored, ahead⟩ : ∃ inner,
          language.Proceeds (writeAndTake count) moved inner ∧ Restored moved inner ∧
            inner.program.Ahead (leftMove :: takeMove :: later) := ih ahead
      rcases Program.ahead_cons_iff.mp ahead with ⟨left, ahead⟩
      rcases Program.ahead_cons_iff.mp ahead with ⟨take, ahead⟩
      let movedBack := withTape inner.behind (inner.state.tape.move (-1))
      have whole : Restored machine (takenBack movedBack.behind 1) := by
        have inside := restored_of_inner ⟨restored.state_eq, restored.output_eq⟩
        exact ⟨inside.state_eq, inside.output_eq⟩
      refine ⟨takenBack movedBack.behind 1, ?_, whole, ahead⟩
      apply Language.Proceeds.cons write (perform_writeMove machine.behind)
      apply Language.Proceeds.cons right (perform_rightMove written.behind)
      apply proceeds.append
      apply Language.Proceeds.cons left (perform_leftMove inner.behind)
      exact .cons take (perform_takeMove movedBack.behind) .nil

/--
Whatever a tape, a stack of loops and an output have come to, and wherever in a game: after `Ba2
Ra2` any number of times and `Rb1 Ba1` as many times, they are as they were. And a flagged bishop
that takes characters back, as many as the move behind it says and at least one, puts the code of
the first of them into the cell under the pointer, modulo 256, or zero if there are not so many. It
leaves the characters before them and changes no other cell.
-/
theorem output_is_stack :
    (∀ (machine : Machine Token TapeState) (count : Nat) (answers : List Answer),
      machine.program.Ahead (writeAndTake count) →
        let run := language.plainRun (4 * count) answers machine
        let after := PlainStep.lastMachine machine run.1
        run.1.map PlainStep.token = writeAndTake count ∧
          (∀ step ∈ run.1, step.flow = .ok .proceed) ∧
          after.state.tape.cells = machine.state.tape.cells ∧
          after.state.tape.pointer = machine.state.tape.pointer ∧
          after.state.loops = machine.state.loops ∧
          after.console.output = machine.console.output) ∧
      ∀ (machine : Machine Token TapeState) (move parameter : Move), move.piece = .bishop →
        move.square.difference = 0 → move.isFlagged = true →
        machine.program.current? = some (.move parameter) → 1 ≤ parameter.parameter →
          let output := machine.console.output.toList
          ∃ after, language.perform (.move move) machine = (.ok .proceed, after) ∧
            (∀ c, parameter.parameter ≤ output.length →
              output[output.length - parameter.parameter]? = some c →
                after.state.tape.cell.toNat = c.toNat % 256) ∧
            (output.length < parameter.parameter → after.state.tape.cell.toNat = 0) ∧
            after.console.output.toList = output.take (output.length - parameter.parameter) ∧
            after.state.tape.pointer = machine.state.tape.pointer ∧
            (∀ cell ≠ machine.state.tape.pointer,
              after.state.tape.cells[cell]? = machine.state.tape.cells[cell]?) ∧
            after.state.loops = machine.state.loops := by
  refine ⟨?_, ?_⟩
  · intro machine count answers ahead
    rw [← List.append_nil (writeAndTake count)] at ahead
    obtain ⟨after, proceeds, restored, _⟩ := proceeds_writeAndTake count ahead
    obtain ⟨steps, tokens, flows, lastMachine, run⟩ := proceeds.plainRun_eq 0 answers
    rw [Nat.add_zero, length_writeAndTake] at run
    have all : language.plainRun (4 * count) answers machine = (steps, .limited) :=
      run.trans (by rw [Language.plainRun, List.append_nil])
    simp only [all, lastMachine, restored.state_eq, restored.output_eq]
    exact ⟨tokens, flows, trivial, trivial, trivial, trivial⟩
  · intro machine move parameter isBishop even flagged next positive output
    have code : (takenBack machine.behind parameter.parameter).state.tape.cell.toNat =
        takenCode machine parameter.parameter % 256 := toNat_cell_takenBack _ _
    refine ⟨_, perform_flagged isBishop even flagged next positive, ?_, ?_, ?_, rfl, ?_, rfl⟩
    · intro c enough stands
      rwa [takenCode_of_getElem? enough stands] at code
    · intro tooMany
      rwa [takenCode_of_lt tooMany] at code
    · have length : machine.console.length = output.length := String.length_toList.symm
      rw [← length]
      exact machine.console.toList_output_eraseLast parameter.parameter
    · intro cell other
      exact Tape.cells_store_of_ne other _

/--
On two cells the pointer goes around while three characters are written and taken back. Then two
characters are taken back, the first of which has a code above 255.
-/
theorem output_is_stack_of_two_cells :
    ∃ tape : Tape, tape.cells = #[65, 200] ∧ tape.pointer = 1 ∧
      let machine : Machine Token TapeState :=
        { program := { tokens := (writeAndTake 3).toArray }, state := { tape, loops := #[4] },
          console := { output := "žx" }, random := .zeros }
      let after := PlainStep.lastMachine machine (language.plainRun 12 [] machine).1
      let bishop : Move := ⟨.bishop, ⟨0, 0⟩, false, true, false⟩
      let two : Move := ⟨.pawn, ⟨0, 2⟩, false, false, false⟩
      machine.program.Ahead (writeAndTake 3) ∧ after.state.tape.cells = #[65, 200] ∧
        after.state.tape.pointer = 1 ∧ after.state.loops = #[4] ∧ after.console.output = "žx" ∧
        ∃ taken, language.perform (.move bishop)
            { machine with program := { tokens := #[.move bishop, .move two], counter := 1 } } =
              (.ok .proceed, taken) ∧
          taken.state.tape.cell.toNat = 126 ∧ taken.console.output.toList = [] := by
  let tape : Tape := { cells := #[65, 200], pointer := 1, pointer_lt := by decide }
  refine ⟨tape, rfl, rfl, ?_⟩
  intro machine after bishop two
  have ahead : machine.program.Ahead (writeAndTake 3) := List.prefix_refl _
  obtain ⟨restores, takes⟩ := output_is_stack
  obtain ⟨_, _, cells, pointer, loops, output⟩ := restores machine 3 [] ahead
  obtain ⟨taken, performs, code, _, kept, _⟩ := takes
    { machine with program := { tokens := #[.move bishop, .move two], counter := 1 } } bishop two
    rfl rfl rfl rfl (by decide)
  exact ⟨ahead, cells, pointer, loops, output, taken, performs, code 'ž' (by decide) (by decide),
    kept.trans (by decide)⟩

end Chess

end Esoterica
