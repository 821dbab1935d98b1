import Esoterica.Proofs.Course

/-!
# Loops follow the castlings that were executed

Where the loops of a game begin cannot be seen from its text: kings jump into loops and out of them,
and a flagged move takes the move behind it as a number. But the stack of loops only ever grows, by
one entry for each short castling that is executed. So at every moment it lists the positions behind
these castlings in the order of their execution, as often as each of them was executed, and a long
castling goes on behind the last of them.
-/

namespace Esoterica

namespace Chess

open Instruction

/-! ### Moves leave the loops alone -/

theorem keepsState_takeParameter :
    takeParameter.Relates fun before after => after.state = before.state := by
  have trans : ∀ first second third : Machine Token TapeState, second.state = first.state →
      third.state = second.state → third.state = first.state := by
    intro first second third earlier later
    exact later.trans earlier
  apply Relates.bind trans
  · intro machine
    rfl
  · intro machine
    apply Relates.bind trans
    · intro machine
      rfl
    · intro _ machine
      split
      · rfl
      · rfl
      · rfl

theorem Movement.keepsLoops {α : Type} {action : Instruction Token TapeState α}
    (isMovement : Movement α action) :
    action.Relates fun before after => after.state.loops = before.state.loops := by
  intro machine
  cases isMovement with
  | takeParameter => rw [keepsState_takeParameter machine]
  | look | modifyTape | modifyConsole | draw => rfl
  | skip offset => rw [after_tryProgram_state]

theorem play_loops (move : Move) (machine : Machine Token TapeState) :
    (language.perform (.move move) machine).2.state.loops = machine.state.loops := by
  have composed : Composed Movement (fun _ => False) Flow (play move) := composed_play move
  have keeps : (language.execute (.move move)).Relates fun before after =>
      after.state.loops = before.state.loops := by
    refine composed.relates ?_ ?_ ?_
    · intro machine
      rfl
    · intro first second third earlier later
      exact later.trans earlier
    · intro α action isMovement
      exact isMovement.keepsLoops
  exact Language.perform_relates keeps machine

theorem receive_loops {entry : Entry} {state after : TapeState}
    (receives : receive entry state = .ok after) : after.loops = state.loops := by
  cases entry with
  | char | number =>
      cases receives
      rfl
  | text => cases receives

theorem answer_program (answer : Answer) (machine : Machine Token TapeState) :
    (language.answer answer machine).2.program = machine.program := by
  unfold Language.answer
  cases language.receive answer.entry machine.state with
  | ok state => rfl
  | error fault => rfl

theorem answer_loops (answer : Answer) (machine : Machine Token TapeState) :
    (language.answer answer machine).2.state.loops = machine.state.loops := by
  unfold Language.answer
  cases receives : language.receive answer.entry machine.state with
  | ok state => exact receive_loops receives
  | error fault => rfl

/-! ### Castlings -/

theorem perform_short (machine : Machine Token TapeState) :
    language.perform (.castling .short) machine =
      (.ok .proceed,
        { machine with
          state :=
            { machine.state with loops := machine.state.loops.push machine.program.counter } }) :=
  rfl

/-- The machine with the start of its innermost loop taken from the stack. -/
def popped (machine : Machine Token TapeState) : Machine Token TapeState :=
  { machine with state := { machine.state with loops := machine.state.loops.pop } }

theorem popLoop_eq (machine : Machine Token TapeState) :
    (TapeState.popLoop? : Instruction Token TapeState (Option Nat)) machine =
      .ok machine.state.loops.back? (popped machine) :=
  rfl

theorem perform_long_of_nil {machine : Machine Token TapeState}
    (unopened : machine.state.loops = #[]) :
    language.perform (.castling .long) machine = (.error .missingLoopStart, machine) := by
  have nothing : popped machine = machine := by
    simp only [popped, unopened, Array.pop_empty]
    rw [← unopened]
  have fails : execute (.castling .long) machine = .error .missingLoopStart machine := by
    simp only [execute, bind, EStateM.bind, popLoop_eq, nothing, unopened, Array.back?_empty]
    rfl
  simp only [Language.perform, language, fails]

/-- The innermost start is taken from the stack and put back, and the run goes on there. -/
theorem perform_long_of_push {machine : Machine Token TapeState} {outer : Array Nat} {start : Nat}
    (opened : machine.state.loops = outer.push start)
    (inside : start ≤ machine.program.tokens.size) :
    language.perform (.castling .long) machine =
      (.ok .yield, { machine with program := { machine.program with counter := start } }) := by
  have putBack : { machine.state with loops := machine.state.loops.pop.push start } =
      machine.state := by
    rw [opened, Array.pop_push, ← opened]
  have jumps : (tryProgram (·.goTo start) : Instruction Token TapeState Unit) (popped machine) =
      .ok () { popped machine with program := { machine.program with counter := start } } := by
    apply tryProgram_of_ok
    exact if_pos inside
  have goesOn : execute (.castling .long) machine =
      .ok .yield { machine with program := { machine.program with counter := start } } := by
    simp only [execute, bind, EStateM.bind, popLoop_eq, opened, Array.back?_push, jumps]
    exact congrArg (fun state => EStateM.Result.ok Flow.yield
      { machine with program := { machine.program with counter := start }, state }) putBack
  simp only [Language.perform, language, goesOn]

/-! ### Runs -/

/-- The game leads to the machine when these tokens, each with its index, have been executed. -/
inductive Plays (program : Program Token) :
    List (Nat × Token) → Machine Token TapeState → Prop where
  | start (options : Options) (console : Console) (random : RandomStream) :
      Plays program []
        { program := program.rewind, state := language.initial options, console, random }
  | execute {executed : List (Nat × Token)} {machine : Machine Token TapeState} {token : Token}
      {behind : Program Token} (plays : Plays program executed machine)
      (next : machine.program.next = (some token, behind)) :
      Plays program (executed ++ [(machine.program.counter, token)])
        (language.perform token { machine with program := behind }).2
  | answer {executed : List (Nat × Token)} {machine : Machine Token TapeState}
      (plays : Plays program executed machine) (answer : Answer) :
      Plays program executed (language.answer answer machine).2

/-- The positions behind the short castlings among executed tokens, in the order of execution. -/
def loopStarts (executed : List (Nat × Token)) : List Nat :=
  executed.filterMap fun (index, token) =>
    if token = .castling .short then some (index + 1) else none

theorem loopStarts_eq_nil_iff {executed : List (Nat × Token)} :
    loopStarts executed = [] ↔ ∀ index, (index, .castling .short) ∉ executed := by
  unfold loopStarts
  rw [List.filterMap_eq_nil_iff]
  constructor
  · intro unopened index mem
    simpa using unopened _ mem
  · intro absent ⟨index, token⟩ mem
    apply if_neg
    rintro rfl
    exact absent index mem

theorem loopStarts_of_last {earlier later : List (Nat × Token)} (index : Nat)
    (last : ∀ other, (other, .castling .short) ∉ later) :
    loopStarts (earlier ++ (index, .castling .short) :: later) =
      loopStarts earlier ++ [index + 1] := by
  have none := loopStarts_eq_nil_iff.mpr last
  simp only [loopStarts, List.filterMap_append, List.filterMap_cons, if_true] at none ⊢
  rw [none]

theorem exists_last_short {executed : List (Nat × Token)} {index : Nat}
    (mem : (index, .castling .short) ∈ executed) :
    ∃ earlier last later, executed = earlier ++ (last, .castling .short) :: later ∧
      ∀ other, (other, .castling .short) ∉ later := by
  induction executed generalizing index with
  | nil => cases mem
  | cons first rest ih =>
      by_cases again : ∃ other, (other, Token.castling .short) ∈ rest
      · rcases again with ⟨other, memRest⟩
        rcases ih memRest with ⟨earlier, last, later, rfl, isLast⟩
        exact ⟨first :: earlier, last, later, rfl, isLast⟩
      · rcases List.mem_cons.mp mem with rfl | memRest
        · exact ⟨[], index, rest, rfl, not_exists.mp again⟩
        · exact absurd ⟨index, memRest⟩ again

/-- The loops of the machine are recorded in the tokens that were executed. -/
structure Recorded (tokens : Array Token) (executed : List (Nat × Token))
    (machine : Machine Token TapeState) : Prop where
  tokens_eq : machine.program.tokens = tokens
  genuine : ∀ index token, (index, token) ∈ executed → tokens[index]? = some token
  loops_eq : machine.state.loops.toList = loopStarts executed

namespace Recorded

variable {tokens : Array Token} {executed : List (Nat × Token)} {machine : Machine Token TapeState}

theorem perform_long_of_unopened (recorded : Recorded tokens executed machine)
    (absent : ∀ index, (index, .castling .short) ∉ executed) :
    language.perform (.castling .long) machine.behind =
      (.error .missingLoopStart, machine.behind) := by
  apply perform_long_of_nil
  apply Array.toList_eq_nil_iff.mp
  exact recorded.loops_eq.trans (loopStarts_eq_nil_iff.mpr absent)

theorem perform_long_of_last {earlier later : List (Nat × Token)} {index : Nat}
    (recorded : Recorded tokens executed machine)
    (split : executed = earlier ++ (index, .castling .short) :: later)
    (last : ∀ other, (other, .castling .short) ∉ later) :
    language.perform (.castling .long) machine.behind =
      (.ok .yield, { machine with program := { machine.program with counter := index + 1 } }) := by
  have opened : machine.behind.state.loops = (loopStarts earlier).toArray.push (index + 1) := by
    apply Array.toList_inj.mp
    apply recorded.loops_eq.trans
    rw [split, loopStarts_of_last index last]
    simp
  have inside : index < tokens.size := by
    have here := recorded.genuine index (.castling .short) (by simp [split])
    exact (Array.getElem?_eq_some_iff.mp here).1
  apply perform_long_of_push opened
  change index + 1 ≤ machine.program.tokens.size
  rw [recorded.tokens_eq]
  exact inside

theorem perform_loops (recorded : Recorded tokens executed machine) {token : Token}
    (other : token ≠ .castling .short) :
    (language.perform token machine.behind).2.state.loops = machine.state.loops := by
  cases token with
  | result => rfl
  | move move => exact play_loops move machine.behind
  | castling side =>
      cases side with
      | short => exact absurd rfl other
      | long =>
          -- The start that a long castling takes from the stack is put back, if there is one.
          by_cases opened : ∃ index, (index, Token.castling .short) ∈ executed
          · rcases opened with ⟨index, mem⟩
            rcases exists_last_short mem with ⟨earlier, last, later, split, isLast⟩
            rw [recorded.perform_long_of_last split isLast]
          · rw [recorded.perform_long_of_unopened (not_exists.mp opened)]
            rfl

theorem perform {token : Token} (recorded : Recorded tokens executed machine)
    (current : machine.program.current? = some token) :
    Recorded tokens (executed ++ [(machine.program.counter, token)])
      (language.perform token machine.behind).2 := by
  refine ⟨?_, ?_, ?_⟩
  · have steers : (language.execute token).Steers := steers_execute token
    have leads := Language.perform_relates steers machine.behind
    exact leads.tokens_eq.trans recorded.tokens_eq
  · intro index found mem
    rcases List.mem_append.mp mem with earlier | here
    · exact recorded.genuine index found earlier
    · cases List.mem_singleton.mp here
      rw [← recorded.tokens_eq]
      exact current
  · by_cases isShort : token = .castling .short
    · subst isShort
      rw [perform_short, loopStarts_of_last _ (by simp), ← recorded.loops_eq]
      exact Array.toList_push
    · rw [recorded.perform_loops isShort, recorded.loops_eq]
      simp [loopStarts, isShort]

theorem answer (recorded : Recorded tokens executed machine) (answer : Answer) :
    Recorded tokens executed (language.answer answer machine).2 := by
  refine ⟨?_, recorded.genuine, ?_⟩
  · rw [answer_program]
    exact recorded.tokens_eq
  · rw [answer_loops]
    exact recorded.loops_eq

end Recorded

theorem Plays.recorded {program : Program Token} {executed : List (Nat × Token)}
    {machine : Machine Token TapeState} (plays : Plays program executed machine) :
    Recorded program.tokens executed machine := by
  induction plays with
  | start options console random => exact ⟨rfl, by simp, rfl⟩
  | execute plays next ih =>
      rcases Program.current_of_next next with ⟨current, rfl⟩
      exact ih.perform current
  | answer plays answer ih => exact ih.answer answer

theorem Plays.token {program : Program Token} {executed : List (Nat × Token)}
    {machine : Machine Token TapeState} (plays : Plays program executed machine) (index : Nat)
    (token : Token) (here : machine.program.counter = index)
    (current : machine.program.current? = some token) :
    Plays program (executed ++ [(index, token)]) (language.perform token machine.behind).2 := by
  subst here
  exact plays.execute (Program.next_of_current current)

/--
Whatever was executed and answered in a game, its loops are the positions behind the short castlings
executed so far, in the order of execution. A long castling fails for want of a loop exactly if no
short one was executed; otherwise it goes on right behind the one that was executed last and changes
nothing else. It never jumps out of the game. No other token and no answer changes the loops.
-/
theorem loops_chronological {program : Program Token} {executed : List (Nat × Token)}
    {machine : Machine Token TapeState} (plays : Plays program executed machine) :
    (∀ index token, (index, token) ∈ executed → program.tokens[index]? = some token) ∧
      machine.state.loops.toList = loopStarts executed ∧
      (∀ behind, machine.program.next = (some (.castling .long), behind) →
        let performed := language.perform (.castling .long) { machine with program := behind }
        (performed.1 = .error .missingLoopStart ↔
            ∀ index, (index, .castling .short) ∉ executed) ∧
          (∀ earlier index later, executed = earlier ++ (index, .castling .short) :: later →
            (∀ other, (other, .castling .short) ∉ later) →
              performed =
                (.ok .yield,
                  { machine with program := { machine.program with counter := index + 1 } })) ∧
          ∀ target, performed.1 ≠ .error (.jumpOutOfRange target)) ∧
      (∀ token behind, machine.program.next = (some token, behind) → token ≠ .castling .short →
        (language.perform token { machine with program := behind }).2.state.loops =
          machine.state.loops) ∧
      ∀ answer, (language.answer answer machine).2.state.loops = machine.state.loops := by
  have recorded := plays.recorded
  refine ⟨recorded.genuine, recorded.loops_eq, ?_, ?_, fun answer => answer_loops answer machine⟩
  · intro behind next performed
    rcases Program.current_of_next next with ⟨_, rfl⟩
    by_cases opened : ∃ index, (index, Token.castling .short) ∈ executed
    · rcases opened with ⟨index, mem⟩
      rcases exists_last_short mem with ⟨earlier, last, later, split, isLast⟩
      have goesOn : performed = _ := recorded.perform_long_of_last split isLast
      refine ⟨?_, ?_, ?_⟩
      · rw [goesOn]
        constructor
        · intro fails
          cases fails
        · intro absent
          exact absurd mem (absent index)
      · intro earlier index later split isLast
        exact recorded.perform_long_of_last split isLast
      · intro target fails
        rw [goesOn] at fails
        cases fails
    · have absent := not_exists.mp opened
      have fails : performed = _ := recorded.perform_long_of_unopened absent
      refine ⟨?_, ?_, ?_⟩
      · rw [fails]
        exact ⟨fun _ => absent, fun _ => rfl⟩
      · intro earlier index later split _
        exact absurd (by simp [split]) (absent index)
      · intro target outside
        rw [fails] at outside
        cases outside
  · intro token behind next other
    rcases Program.current_of_next next with ⟨_, rfl⟩
    exact recorded.perform_loops other

/-- A king jumps back over a castling, which is executed twice before the long one is. -/
theorem loops_chronological_of_king :
    let turn : Token := .move ⟨.queen, ⟨2, 0⟩, false, false, false⟩
    let back : Token := .move ⟨.king, ⟨1, 0⟩, false, true, false⟩
    let three : Token := .move ⟨.pawn, ⟨0, 3⟩, false, false, false⟩
    let program : Program Token :=
      { tokens := #[turn, .castling .short, turn, back, three, .castling .long] }
    ∃ machine,
      Plays program
        [(0, turn), (1, .castling .short), (2, turn), (3, back), (1, .castling .short), (2, turn),
          (3, back)] machine ∧
        machine.program.current? = some (.castling .long) ∧
        machine.state.loops.toList = [2, 2] ∧
        (language.perform (.castling .long) machine.behind).2.program.counter = 2 := by
  intro turn back three program
  have began : Plays program [] _ := .start {} {} .zeros
  have turned := began.token 0 turn (by decide +kernel) (by decide +kernel)
  have castled := turned.token 1 (.castling .short) (by decide +kernel) (by decide +kernel)
  have turnedBack := castled.token 2 turn (by decide +kernel) (by decide +kernel)
  have jumped := turnedBack.token 3 back (by decide +kernel) (by decide +kernel)
  have again := jumped.token 1 (.castling .short) (by decide +kernel) (by decide +kernel)
  have turnedAgain := again.token 2 turn (by decide +kernel) (by decide +kernel)
  have stayed := turnedAgain.token 3 back (by decide +kernel) (by decide +kernel)
  obtain ⟨machine, plays, current⟩ : ∃ machine, Plays program _ machine ∧
      machine.program.current? = some (.castling .long) := ⟨_, stayed, by decide +kernel⟩
  rcases loops_chronological plays with ⟨_, loops, long, _, _⟩
  refine ⟨machine, plays, current, loops, ?_⟩
  have goesOn := (long _ (Program.next_of_current current)).2.1
    [(0, turn), (1, .castling .short), (2, turn), (3, back)] 1 [(2, turn), (3, back)] rfl
    (by simp [turn, back])
  exact congrArg (·.2.program.counter) goesOn

end Chess

end Esoterica
