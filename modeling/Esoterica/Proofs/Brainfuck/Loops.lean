import Esoterica.Brainfuck.Basic
import Esoterica.Proofs.Machine.PlainRun

/-!
# Loops are matched lexically

Nothing matches the brackets of a program before it runs, and a loop start is executed again each
time its loop is entered again. Still, the stack of loops is at every moment the one that a single
scan from the first token up to the counter would leave, although the run came there through any
number of jumps back. So an end jumps to the start that it matches in the text of the program.
-/

namespace Esoterica

namespace Brainfuck

/-! ### Scanning and matching -/

/-- The stack of loops when all tokens before a position are scanned once, from left to right. -/
def openLoops (tokens : Array Token) : (position : Nat) → Array Nat
  | 0 => #[]
  | index + 1 =>
    match tokens[index]? with
    | some .loopStart => (openLoops tokens index).push index
    | some .loopEnd => (openLoops tokens index).pop
    | _ => openLoops tokens index

/-- The tokens from one position up to another are balanced. -/
inductive Balanced (tokens : Array Token) : (first last : Nat) → Prop where
  | nil {first : Nat} : Balanced tokens first first
  | command {first index : Nat} {token : Token} (before : Balanced tokens first index)
      (here : tokens[index]? = some token) (noStart : token ≠ .loopStart)
      (noEnd : token ≠ .loopEnd) : Balanced tokens first (index + 1)
  | loop {first start last : Nat} (before : Balanced tokens first start)
      (starts : tokens[start]? = some .loopStart) (body : Balanced tokens (start + 1) last)
      (ends : tokens[last]? = some .loopEnd) : Balanced tokens first (last + 1)

/-- A loop start and a loop end with balanced tokens between them. -/
structure Matches (tokens : Array Token) (start last : Nat) : Prop where
  starts : tokens[start]? = some .loopStart
  body : Balanced tokens (start + 1) last
  ends : tokens[last]? = some .loopEnd

theorem openLoops_of_start {tokens : Array Token} {index : Nat}
    (here : tokens[index]? = some .loopStart) :
    openLoops tokens (index + 1) = (openLoops tokens index).push index := by
  simp only [openLoops, here]

theorem openLoops_of_end {tokens : Array Token} {index : Nat}
    (here : tokens[index]? = some .loopEnd) :
    openLoops tokens (index + 1) = (openLoops tokens index).pop := by
  simp only [openLoops, here]

theorem openLoops_of_command {tokens : Array Token} {index : Nat} {token : Token}
    (here : tokens[index]? = some token) (noStart : token ≠ .loopStart)
    (noEnd : token ≠ .loopEnd) : openLoops tokens (index + 1) = openLoops tokens index := by
  rw [openLoops, here]
  cases token with
  | loopStart => exact absurd rfl noStart
  | loopEnd => exact absurd rfl noEnd
  | right | left | increment | decrement | output | input => rfl

/-- Balanced tokens leave the scan as it was. -/
theorem Balanced.openLoops_eq {tokens : Array Token} {first last : Nat}
    (balanced : Balanced tokens first last) : openLoops tokens last = openLoops tokens first := by
  induction balanced with
  | nil => rfl
  | command before here noStart noEnd ih => rw [openLoops_of_command here noStart noEnd, ih]
  | loop before starts body ends ihBefore ihBody =>
      rw [openLoops_of_end ends, ihBody, openLoops_of_start starts, Array.pop_push, ihBefore]

theorem Balanced.le {tokens : Array Token} {first last : Nat}
    (balanced : Balanced tokens first last) : first ≤ last := by
  induction balanced with
  | nil => exact Nat.le_refl _
  | command before here noStart noEnd ih => omega
  | loop before starts body ends ihBefore ihBody => omega

/-- A loop that the scan leaves open was started, and what stands behind its start is balanced. -/
theorem balanced_of_openLoops_eq_push {tokens : Array Token} {position start : Nat}
    {outer : Array Nat} (inside : position ≤ tokens.size)
    (opened : openLoops tokens position = outer.push start) :
    tokens[start]? = some .loopStart ∧ Balanced tokens (start + 1) position := by
  -- A loop end uncovers the loop around the one it closes, which was open where that one started.
  induction position using Nat.strongRecOn generalizing start outer with
  | ind position ih =>
      cases position with
      | zero => simp [openLoops] at opened
      | succ index =>
          obtain ⟨token, here⟩ : ∃ token, tokens[index]? = some token :=
            ⟨_, Array.getElem?_eq_getElem inside⟩
          by_cases isStart : token = .loopStart
          · subst isStart
            rw [openLoops_of_start here, Array.push_eq_push] at opened
            rw [← opened.1]
            exact ⟨here, .nil⟩
          · by_cases isEnd : token = .loopEnd
            · subst isEnd
              rw [openLoops_of_end here] at opened
              have nonempty : openLoops tokens index ≠ #[] := by
                intro isEmpty
                rw [isEmpty] at opened
                exact Array.push_ne_empty opened.symm
              rcases Array.exists_push_of_ne_empty nonempty with ⟨around, inner, openedInner⟩
              rw [openedInner, Array.pop_push] at opened
              rcases ih index (by omega) (by omega) openedInner with ⟨startsInner, body⟩
              have openedBefore : openLoops tokens inner = outer.push start := by
                have unchanged := body.openLoops_eq
                rw [openedInner, openLoops_of_start startsInner, Array.push_eq_push] at unchanged
                rw [← unchanged.2, opened]
              have := body.le
              rcases ih inner (by omega) (by omega) openedBefore with ⟨starts, before⟩
              exact ⟨starts, .loop before startsInner body here⟩
            · rw [openLoops_of_command here isStart isEnd] at opened
              rcases ih index (by omega) (by omega) opened with ⟨starts, balanced⟩
              exact ⟨starts, .command balanced here isStart isEnd⟩

/-- The innermost loop open before a loop end is the one that it matches. -/
theorem back?_openLoops_eq_some_iff {tokens : Array Token} {start last : Nat}
    (ends : tokens[last]? = some .loopEnd) :
    (openLoops tokens last).back? = some start ↔ Matches tokens start last := by
  have inside : last < tokens.size := (Array.getElem?_eq_some_iff.mp ends).1
  rw [Array.back?_eq_some_iff]
  constructor
  · rintro ⟨outer, opened⟩
    rcases balanced_of_openLoops_eq_push (Nat.le_of_lt inside) opened with ⟨starts, body⟩
    exact ⟨starts, body, ends⟩
  · rintro ⟨starts, body, _⟩
    exact ⟨openLoops tokens start, by rw [body.openLoops_eq, openLoops_of_start starts]⟩

/-- Before a matched loop end, the loops are those before its start and the loop itself. -/
theorem Matches.openLoops_eq {tokens : Array Token} {start last : Nat}
    (isMatch : Matches tokens start last) :
    openLoops tokens last = (openLoops tokens start).push start := by
  rw [isMatch.body.openLoops_eq, openLoops_of_start isMatch.starts]

theorem Matches.unique {tokens : Array Token} {start other last : Nat}
    (isMatch : Matches tokens start last) (isMatchToo : Matches tokens other last) :
    start = other := by
  have opened := isMatch.openLoops_eq
  rw [isMatchToo.openLoops_eq, Array.push_eq_push] at opened
  exact opened.1.symm

/-! ### What a token does to the loops -/

theorem perform_command (machine : Machine Token TapeState) {token : Token}
    (noStart : token ≠ .loopStart) (noEnd : token ≠ .loopEnd) :
    (language.perform token machine).2.program = machine.program ∧
      (language.perform token machine).2.state.loops = machine.state.loops := by
  cases token with
  | loopStart => exact absurd rfl noStart
  | loopEnd => exact absurd rfl noEnd
  | right | left | increment | decrement | output | input => exact ⟨rfl, rfl⟩

theorem perform_loopStart (machine : Machine Token TapeState) :
    language.perform .loopStart machine =
      (.ok .proceed,
        { machine with
          state :=
            { machine.state with
              loops := machine.state.loops.push (machine.program.counter - 1) } }) :=
  rfl

/-- The machine with its innermost loop taken from the stack, about to go on at an index. -/
def leaveLoop (machine : Machine Token TapeState) (index : Nat) : Machine Token TapeState :=
  { machine with
    program := { machine.program with counter := index }
    state := { machine.state with loops := machine.state.loops.pop } }

theorem popLoop_eq (machine : Machine Token TapeState) :
    (TapeState.popLoop? : Instruction Token TapeState (Option Nat)) machine =
      .ok machine.state.loops.back? (leaveLoop machine machine.program.counter) :=
  rfl

theorem perform_of_execute {token : Token} {flow : Flow} {machine after : Machine Token TapeState}
    (executes : execute token machine = .ok flow after) :
    language.perform token machine = (.ok flow, after) := by
  simp only [Language.perform, language, executes]

theorem perform_loopEnd_of_none {machine : Machine Token TapeState}
    (unopened : machine.state.loops.back? = none) :
    language.perform .loopEnd machine =
      (.ok .yield, leaveLoop machine machine.program.counter) := by
  apply perform_of_execute
  simp only [execute, bind, EStateM.bind, popLoop_eq, unopened]
  rfl

theorem perform_loopEnd_of_some {machine : Machine Token TapeState} {start : Nat}
    (opened : machine.state.loops.back? = some start)
    (inside : start ≤ machine.program.tokens.size) :
    language.perform .loopEnd machine =
      (.ok .yield,
        leaveLoop machine
          (if machine.state.tape.cell = 0 then machine.program.counter else start)) := by
  apply perform_of_execute
  have cell : (TapeState.getCell : Instruction Token TapeState UInt8)
      (leaveLoop machine machine.program.counter) =
        .ok machine.state.tape.cell (leaveLoop machine machine.program.counter) := rfl
  have jumps : (Instruction.tryProgram (·.goTo start) : Instruction Token TapeState Unit)
      (leaveLoop machine machine.program.counter) = .ok () (leaveLoop machine start) := by
    apply Instruction.tryProgram_of_ok
    exact if_pos inside
  simp only [execute, bind, EStateM.bind, popLoop_eq, opened, cell]
  by_cases zero : machine.state.tape.cell = 0
  · simp only [zero, bne_self_eq_false, Bool.false_eq_true, if_false, if_true]
    rfl
  · simp only [zero, bne_iff_ne, ne_eq, not_false_eq_true, if_true, if_false, EStateM.bind, jumps]
    rfl

/-! ### Runs -/

/-- A machine that a program can come to when its tokens are executed and answers are taken. -/
inductive Reaches (program : Program Token) : Machine Token TapeState → Prop where
  | start (options : Options) (console : Console) (random : RandomStream) :
      Reaches program
        { program := program.rewind, state := language.initial options, console, random }
  | execute {machine : Machine Token TapeState} {token : Token} {behind : Program Token}
      (reaches : Reaches program machine) (next : machine.program.next = (some token, behind)) :
      Reaches program (language.perform token { machine with program := behind }).2
  | answer {machine : Machine Token TapeState} (reaches : Reaches program machine)
      (answer : Answer) : Reaches program (language.answer answer machine).2

/-- The loops of a machine are those of the scan up to its counter. -/
structure Scanned (tokens : Array Token) (machine : Machine Token TapeState) : Prop where
  tokens_eq : machine.program.tokens = tokens
  loops_eq : machine.state.loops = openLoops tokens machine.program.counter

section Scanned

variable {tokens : Array Token} {machine : Machine Token TapeState}

/-- A loop end goes back to the start it matches, unless the cell is zero. -/
theorem Scanned.perform_of_matches {start : Nat} (scanned : Scanned tokens machine)
    (isMatch : Matches tokens start machine.program.counter) :
    language.perform .loopEnd machine.behind =
      (.ok .yield,
        leaveLoop machine.behind
          (if machine.state.tape.cell = 0 then machine.program.counter + 1 else start)) := by
  apply perform_loopEnd_of_some
  · change machine.state.loops.back? = some start
    rw [scanned.loops_eq, back?_openLoops_eq_some_iff isMatch.ends]
    exact isMatch
  · have inside : start < tokens.size := (Array.getElem?_eq_some_iff.mp isMatch.starts).1
    change start ≤ machine.program.tokens.size
    rw [scanned.tokens_eq]
    exact Nat.le_of_lt inside

/-- A loop end that matches no start is passed over. -/
theorem Scanned.perform_of_unmatched (scanned : Scanned tokens machine)
    (ends : tokens[machine.program.counter]? = some .loopEnd)
    (unmatched : ¬∃ start, Matches tokens start machine.program.counter) :
    language.perform .loopEnd machine.behind =
      (.ok .yield, leaveLoop machine.behind (machine.program.counter + 1)) := by
  apply perform_loopEnd_of_none
  change machine.state.loops.back? = none
  rw [scanned.loops_eq, Option.eq_none_iff_forall_ne_some]
  intro start opened
  exact unmatched ⟨start, (back?_openLoops_eq_some_iff ends).mp opened⟩

/-- The loop end takes from the stack what the scan takes from it. -/
theorem Scanned.leaveLoop {index : Nat} (scanned : Scanned tokens machine)
    (closes : openLoops tokens index = (openLoops tokens machine.program.counter).pop) :
    Scanned tokens (leaveLoop machine.behind index) where
  tokens_eq := scanned.tokens_eq
  loops_eq := by
    change machine.state.loops.pop = openLoops tokens index
    rw [scanned.loops_eq, closes]

theorem Scanned.perform_loopEnd (scanned : Scanned tokens machine)
    (ends : tokens[machine.program.counter]? = some .loopEnd) :
    Scanned tokens (language.perform .loopEnd machine.behind).2 := by
  by_cases matched : ∃ start, Matches tokens start machine.program.counter
  · rcases matched with ⟨start, isMatch⟩
    rw [scanned.perform_of_matches isMatch]
    apply scanned.leaveLoop
    split
    · exact openLoops_of_end ends
    · rw [isMatch.openLoops_eq, Array.pop_push]
  · rw [scanned.perform_of_unmatched ends matched]
    exact scanned.leaveLoop (openLoops_of_end ends)

/-- A token keeps the loops with the scan, also when it jumps back. -/
theorem Scanned.perform {token : Token} (scanned : Scanned tokens machine)
    (here : tokens[machine.program.counter]? = some token) :
    Scanned tokens (language.perform token machine.behind).2 := by
  by_cases isStart : token = .loopStart
  · subst isStart
    rw [perform_loopStart]
    refine ⟨scanned.tokens_eq, ?_⟩
    change machine.state.loops.push machine.program.counter =
      openLoops tokens (machine.program.counter + 1)
    rw [openLoops_of_start here, scanned.loops_eq]
  · by_cases isEnd : token = .loopEnd
    · subst isEnd
      exact scanned.perform_loopEnd here
    · rcases perform_command machine.behind isStart isEnd with ⟨sameProgram, sameLoops⟩
      refine ⟨?_, ?_⟩
      · rw [sameProgram]
        exact scanned.tokens_eq
      · rw [sameProgram, sameLoops]
        exact scanned.loops_eq.trans (openLoops_of_command here isStart isEnd).symm

end Scanned

theorem receive_loops {entry : Entry} {state after : TapeState}
    (receives : receive entry state = .ok after) : after.loops = state.loops := by
  cases entry with
  | char c =>
      cases receives
      rfl
  | text | number => cases receives

theorem Scanned.answer {tokens : Array Token} {machine : Machine Token TapeState}
    (scanned : Scanned tokens machine) (answer : Answer) :
    Scanned tokens (language.answer answer machine).2 := by
  unfold Language.answer
  cases receives : language.receive answer.entry machine.state with
  | ok state => exact ⟨scanned.tokens_eq, (receive_loops receives).trans scanned.loops_eq⟩
  | error fault => exact ⟨scanned.tokens_eq, scanned.loops_eq⟩

theorem Reaches.scanned {program : Program Token} {machine : Machine Token TapeState}
    (reaches : Reaches program machine) : Scanned program.tokens machine := by
  induction reaches with
  | start options console random => exact ⟨rfl, rfl⟩
  | execute reaches next ih =>
      rcases Program.current_of_next next with ⟨current, rfl⟩
      rw [Program.current?, ih.tokens_eq] at current
      exact ih.perform current
  | answer reaches answer ih => exact ih.answer answer

/--
Whatever a program has done, its loops are those that a scan up to the counter leaves open. A loop
end goes back to exactly the start it matches, unless the cell is zero, and one without a match is
always passed over.
-/
theorem loops_lexical {program : Program Token} {machine : Machine Token TapeState}
    (reaches : Reaches program machine) :
    machine.program.tokens = program.tokens ∧
      machine.state.loops = openLoops program.tokens machine.program.counter ∧
      ∀ behind, machine.program.next = (some .loopEnd, behind) →
        ∃ after,
          language.perform .loopEnd { machine with program := behind } = (.ok .yield, after) ∧
          (∀ start, Matches program.tokens start machine.program.counter →
            after.program.counter =
              if machine.state.tape.cell = 0 then machine.program.counter + 1 else start) ∧
          ((¬∃ start, Matches program.tokens start machine.program.counter) →
            after.program.counter = machine.program.counter + 1) := by
  have scanned := reaches.scanned
  refine ⟨scanned.tokens_eq, scanned.loops_eq, ?_⟩
  intro _ next
  rcases Program.current_of_next next with ⟨ends, rfl⟩
  rw [Program.current?, scanned.tokens_eq] at ends
  by_cases matched : ∃ start, Matches program.tokens start machine.program.counter
  · rcases matched with ⟨start, isMatch⟩
    refine ⟨_, scanned.perform_of_matches isMatch, ?_, absurd ⟨start, isMatch⟩⟩
    intro other isMatchToo
    rw [isMatch.unique isMatchToo]
    rfl
  · refine ⟨_, scanned.perform_of_unmatched ends matched, ?_, fun _ => rfl⟩
    intro start isMatch
    exact absurd ⟨start, isMatch⟩ matched

/-- The program `]+[]` goes back from its second end to its only start. -/
theorem loops_lexical_of_unmatched_end :
    let program : Program Token := { tokens := #[.loopEnd, .increment, .loopStart, .loopEnd] }
    let first : Machine Token TapeState :=
      { program := program.rewind, state := language.initial {}, random := .zeros }
    let second := (language.perform .loopEnd first.behind).2
    let third := (language.perform .increment second.behind).2
    let fourth := (language.perform .loopStart third.behind).2
    Reaches program fourth ∧
      (language.perform .loopEnd fourth.behind).2.program.counter = 2 := by
  intro program first second third fourth
  have reaches : Reaches program fourth :=
    (((Reaches.start {} {} .zeros).execute rfl).execute rfl).execute rfl
  have isMatch : Matches program.tokens 2 3 := ⟨rfl, .nil, rfl⟩
  have cell : fourth.state.tape.cell ≠ 0 := by
    change (Tape.standard.add 1).cell ≠ 0
    simp [Tape.add, Tape.store, Tape.cell, Tape.standard, Tape.blank, Tape.cellOf]
  rcases loops_lexical reaches with ⟨_, _, ends⟩
  rcases ends _ rfl with ⟨after, performs, jumps, _⟩
  refine ⟨reaches, ?_⟩
  rw [show language.perform .loopEnd fourth.behind = _ from performs, jumps 2 isMatch, if_neg cell]

end Brainfuck

end Esoterica
