import Esoterica.Proofs.Composition
import Esoterica.Proofs.Machine.PlainRun

/-!
# Where instructions lead

An instruction moves the counter of its program and changes nothing else about it, and never moves
the counter beyond the position behind the last token: jumps are checked, and a game takes only
tokens that are there as parameters. One that asks for input does not even move the counter.
-/

namespace Esoterica

namespace Program

variable {Token : Type}

/-- The counter points at a token or just behind the last one. -/
def Inside (program : Program Token) : Prop :=
  program.counter ≤ program.tokens.size

/-- The first program becomes the second when its counter moves, never from inside to outside. -/
structure Leads (before after : Program Token) : Prop where
  tokens_eq : after.tokens = before.tokens
  markers_eq : after.markers = before.markers
  inside : before.Inside → after.Inside

theorem Leads.refl (program : Program Token) : program.Leads program :=
  ⟨rfl, rfl, id⟩

theorem Leads.trans {first second third : Program Token} (earlier : first.Leads second)
    (later : second.Leads third) : first.Leads third where
  tokens_eq := later.tokens_eq.trans earlier.tokens_eq
  markers_eq := later.markers_eq.trans earlier.markers_eq
  inside isInside := later.inside (earlier.inside isInside)

theorem inside_step {program : Program Token} {token : Token}
    (current : program.current? = some token) : program.step.Inside := by
  have less : program.counter < program.tokens.size := by
    simp only [current?] at current
    exact (Array.getElem?_eq_some_iff.mp current).1
  simp only [Inside, step]
  omega

theorem leads_next (program : Program Token) : program.Leads program.next.2 := by
  cases current : program.current? with
  | none =>
      rw [next_of_atEnd current]
      exact .refl program
  | some token =>
      rw [next_of_current current]
      exact ⟨rfl, rfl, fun _ => inside_step current⟩

theorem leads_goTo {program after : Program Token} {index : Nat}
    (jumps : program.goTo index = .ok after) : program.Leads after := by
  simp only [goTo] at jumps
  split at jumps
  · rename_i isInside
    cases jumps
    exact ⟨rfl, rfl, fun _ => isInside⟩
  · cases jumps

theorem leads_skip {program after : Program Token} {offset : Int}
    (jumps : program.skip offset = .ok after) : program.Leads after := by
  simp only [skip] at jumps
  split at jumps
  · cases jumps
  · split at jumps
    · cases jumps
    · exact leads_goTo jumps

theorem goTo_fault {program : Program Token} {index : Nat} {fault : Fault}
    (fails : program.goTo index = .error fault) : ∃ target, fault = .jumpOutOfRange target := by
  simp only [goTo] at fails
  split at fails
  · cases fails
  · cases fails
    exact ⟨_, rfl⟩

theorem skip_fault {program : Program Token} {offset : Int} {fault : Fault}
    (fails : program.skip offset = .error fault) : ∃ target, fault = .jumpOutOfRange target := by
  simp only [skip] at fails
  split at fails
  · cases fails
    exact ⟨_, rfl⟩
  · split at fails
    · cases fails
      exact ⟨_, rfl⟩
    · exact goTo_fault fails

end Program

namespace Instruction

variable {Token State α β : Type}

/-- The machine that an instruction leaves, also when it fails. -/
def after (action : Instruction Token State α) (machine : Machine Token State) :
    Machine Token State :=
  match action machine with
  | .ok _ machine | .error _ machine => machine

theorem after_tryProgram_state (change : Program Token → Except Fault (Program Token))
    (machine : Machine Token State) :
    ((tryProgram change : Instruction Token State Unit).after machine).state = machine.state := by
  simp only [after, tryProgram_eq]
  cases change machine.program with
  | ok program => rfl
  | error fault => rfl

/-- What the instruction leaves is related to what it found, also when it fails. -/
def Relates (relation : Machine Token State → Machine Token State → Prop)
    (action : Instruction Token State α) : Prop :=
  ∀ machine, relation machine (action.after machine)

section Relates

variable {relation : Machine Token State → Machine Token State → Prop}

theorem Relates.bind {first : Instruction Token State α} {rest : α → Instruction Token State β}
    (trans : ∀ first second third, relation first second → relation second third →
      relation first third)
    (relates : first.Relates relation) (restRelates : ∀ value, (rest value).Relates relation) :
    (first >>= rest).Relates relation := by
  intro machine
  have related := relates machine
  simp only [after, Bind.bind, EStateM.bind] at related ⊢
  cases executed : first machine with
  | ok value middle =>
      simp only [executed] at related ⊢
      exact trans _ _ _ related (restRelates value middle)
  | error fault middle =>
      simp only [executed] at related ⊢
      exact related

/-- What all the parts of an instruction keep is kept by the whole. -/
theorem Composed.relates {primitive : (α : Type) → Instruction Token State α → Prop}
    {throws : Fault → Prop} (refl : ∀ machine, relation machine machine)
    (trans : ∀ first second third, relation first second → relation second third →
      relation first third)
    (primitives : ∀ (α : Type) (action : Instruction Token State α),
      primitive α action → action.Relates relation)
    {action : Instruction Token State α} (composed : Composed primitive throws α action) :
    action.Relates relation := by
  induction composed with
  | primitive isPrimitive => exact primitives _ _ isPrimitive
  | pure | throw => exact refl
  | bind _ _ ih restIh => exact ih.bind trans restIh

end Relates

/-- The instruction moves the counter of the program at most, and keeps it inside. -/
def Steers (action : Instruction Token State α) : Prop :=
  action.Relates fun before after => before.program.Leads after.program

/-- An instruction that leaves the program alone steers. -/
theorem Steers.of_eq {action : Instruction Token State α}
    (same : ∀ machine, (action.after machine).program = machine.program) : action.Steers := by
  intro machine
  rw [same machine]
  exact .refl machine.program

/-- An instruction that looks at the machine first has to steer from that machine only. -/
theorem Steers.get_bind {rest : Machine Token State → Instruction Token State α}
    (leads : ∀ machine : Machine Token State,
      machine.program.Leads ((rest machine).after machine).program) : (get >>= rest).Steers :=
  leads

theorem steers_tryProgram {change : Program Token → Except Fault (Program Token)}
    (leads : ∀ before after, change before = .ok after → before.Leads after) :
    (tryProgram change : Instruction Token State Unit).Steers := by
  apply Steers.get_bind
  intro machine
  cases changed : change machine.program with
  | ok program => exact leads _ _ changed
  | error fault => exact .refl machine.program

/-- What is put together from instructions that steer steers. -/
theorem Composed.steers {primitive : (α : Type) → Instruction Token State α → Prop}
    {throws : Fault → Prop}
    (primitives : ∀ (α : Type) (action : Instruction Token State α),
      primitive α action → action.Steers)
    {action : Instruction Token State α} (composed : Composed primitive throws α action) :
    action.Steers :=
  composed.relates (fun machine => .refl machine.program) (fun _ _ _ => .trans) primitives

end Instruction

open Instruction

theorem Language.perform_relates {Token State : Type} {language : Language Token State}
    {token : Token} {relation : Machine Token State → Machine Token State → Prop}
    (relates : (language.execute token).Relates relation) (machine : Machine Token State) :
    relation machine (language.perform token machine).2 := by
  have related := relates machine
  simp only [after] at related
  simp only [perform]
  cases executed : language.execute token machine with
  | ok flow after =>
      simp only [executed] at related ⊢
      exact related
  | error fault after =>
      simp only [executed] at related ⊢
      exact related

theorem Language.perform_program {Token State : Type} {language : Language Token State}
    {token : Token} (steers : (language.execute token).Steers) (machine : Machine Token State) :
    machine.program.Leads (language.perform token machine).2.program :=
  perform_relates steers machine

theorem TapeState.Primitive.steers {Token α : Type} {action : Instruction Token TapeState α}
    (isPrimitive : TapeState.Primitive α action) : action.Steers := by
  cases isPrimitive with
  | look | modifyTape | modifyConsole | pushLoop | popLoop | draw => exact .of_eq fun _ => rfl
  | goTo index => exact steers_tryProgram fun _ _ => Program.leads_goTo
  | skip offset => exact steers_tryProgram fun _ _ => Program.leads_skip

/-- The token that is taken as a number is passed over, if there is one. -/
theorem Chess.steers_takeParameter : Chess.takeParameter.Steers := by
  apply Steers.get_bind
  intro machine
  have leads := machine.program.leads_next
  rcases next : machine.program.next with ⟨token?, program⟩
  rw [next] at leads
  rcases token? with _ | token
  · exact leads
  · cases token with
    | move | castling | result => exact leads

theorem Chess.Primitive.steers {α : Type} {action : Instruction Chess.Token TapeState α}
    (isPrimitive : Chess.Primitive α action) : action.Steers := by
  cases isPrimitive with
  | takeParameter => exact Chess.steers_takeParameter
  | ofTape isPrimitive => exact isPrimitive.steers

theorem ShortO.Primitive.steers {looks : Prop} {α : Type} {action : ShortO.StackAction α}
    (isPrimitive : ShortO.Primitive looks α action) : action.Steers := by
  cases isPrimitive with
  | look | modifyConsole | draw => exact .of_eq fun _ => rfl
  | pop =>
      apply Steers.of_eq
      intro machine
      simp only [after, ShortO.pop_eq]
      cases machine.state.top? with
      | some value => rfl
      | none => rfl
  | push value =>
      apply Steers.of_eq
      intro machine
      simp only [after, ShortO.push_eq]
      cases machine.state.isFull with
      | true => rfl
      | false => rfl
  | goTo index => exact steers_tryProgram fun _ _ => Program.leads_goTo
  | skip offset => exact steers_tryProgram fun _ _ => Program.leads_skip

theorem Brainfuck.steers_execute (token : Brainfuck.Token) : (Brainfuck.execute token).Steers :=
  (Brainfuck.composed_execute token).steers fun _ _ => TapeState.Primitive.steers

theorem Chess.steers_execute (token : Chess.Token) : (Chess.execute token).Steers :=
  (Chess.composed_execute token).steers fun _ _ => Chess.Primitive.steers

theorem ShortO.steers_apply (operator : ShortO.Operator) : operator.apply.Steers :=
  Composed.steers (fun _ _ => ShortO.Primitive.steers)
    (ShortO.composed_apply operator fun _ => trivial)

/-- The tokens of the stack language steer if what its operators stand for does. -/
theorem ShortO.steers_execute {registry : ShortO.Registry} (steers : registry.All (·.Steers))
    (token : ShortO.Token) : (ShortO.execute registry token).Steers := by
  have steers_of_composed {throws : Fault → Prop} {action : ShortO.StackAction Flow}
      (composed : Composed (ShortO.Primitive True) throws Flow action) : action.Steers :=
    composed.steers fun _ _ => ShortO.Primitive.steers
  cases token with
  | text text =>
      exact steers_of_composed (ShortO.composed_proceed (.primitive (.modifyConsole _)))
  | value value => exact steers_of_composed (ShortO.composed_proceed (.primitive (.push value)))
  | operator symbol =>
      simp only [ShortO.execute]
      split
      · exact steers symbol _ ‹_›
      · exact .of_eq fun _ => rfl
  | jump name => exact steers_of_composed (ShortO.composed_jump name)

/-! ### Requests

An instruction that asks for input has done nothing else. In particular the counter stands right
behind it while the run waits for the answer.
-/

namespace Instruction

variable {Token State α : Type}

def NeverAsks (action : Instruction Token State Flow) : Prop :=
  ∀ machine request after, action machine ≠ .ok (.ask request) after

/-- Where the instruction asks for input, it has left the machine alone. -/
def AsksAtOnce (action : Instruction Token State Flow) : Prop :=
  ∀ machine request after, action machine = .ok (.ask request) after → after = machine

theorem NeverAsks.asksAtOnce {action : Instruction Token State Flow} (never : action.NeverAsks) :
    action.AsksAtOnce := by
  intro machine request after asks
  exact absurd asks (never machine request after)

theorem asksAtOnce_pure (flow : Flow) : (pure flow : Instruction Token State Flow).AsksAtOnce := by
  intro machine request after asks
  cases asks
  rfl

theorem neverAsks_pure {flow : Flow} (other : ∀ request, flow ≠ .ask request) :
    (pure flow : Instruction Token State Flow).NeverAsks := by
  intro machine request after asks
  cases asks
  exact other request rfl

theorem neverAsks_throw (fault : Fault) :
    (throw fault : Instruction Token State Flow).NeverAsks := by
  intro machine request after asks
  cases asks

theorem NeverAsks.bind {first : Instruction Token State α}
    {rest : α → Instruction Token State Flow} (never : ∀ value, (rest value).NeverAsks) :
    (first >>= rest).NeverAsks := by
  intro machine request after asks
  simp only [Bind.bind, EStateM.bind] at asks
  split at asks
  · exact never _ _ _ _ asks
  · cases asks

theorem neverAsks_proceed (action : Instruction Token State α) :
    (action >>= fun _ => pure Flow.proceed).NeverAsks :=
  .bind fun _ => neverAsks_pure (by simp)

theorem neverAsks_yield (action : Instruction Token State α) :
    (action >>= fun _ => pure Flow.yield).NeverAsks :=
  .bind fun _ => neverAsks_pure (by simp)

end Instruction

theorem Brainfuck.asksAtOnce_execute (token : Brainfuck.Token) :
    (Brainfuck.execute token).AsksAtOnce := by
  cases token with
  | input => exact asksAtOnce_pure _
  | right | left | increment | decrement | output => exact (neverAsks_proceed _).asksAtOnce
  | loopStart => exact (NeverAsks.bind fun _ => neverAsks_proceed _).asksAtOnce
  | loopEnd =>
      apply NeverAsks.asksAtOnce
      apply NeverAsks.bind
      intro start?
      cases start? with
      | none => exact neverAsks_pure (by simp)
      | some start =>
          apply NeverAsks.bind
          intro cell
          split
          · exact neverAsks_yield _
          · exact neverAsks_pure (by simp)

theorem Chess.neverAsks_playKing (move : Chess.Move) : (Chess.playKing move).NeverAsks := by
  apply NeverAsks.bind
  intro amount
  apply NeverAsks.bind
  intro cell
  split
  · exact neverAsks_pure (by simp)
  · exact neverAsks_yield _

theorem Chess.asksAtOnce_playBishop (move : Chess.Move) : (Chess.playBishop move).AsksAtOnce := by
  simp only [Chess.playBishop]
  split
  · exact asksAtOnce_pure _
  · apply NeverAsks.asksAtOnce
    split
    · split
      · exact .bind fun _ => neverAsks_proceed _
      · exact neverAsks_proceed _
    · exact .bind fun _ => neverAsks_proceed _

theorem Chess.asksAtOnce_play (move : Chess.Move) : (Chess.play move).AsksAtOnce := by
  simp only [Chess.play]
  split
  · exact asksAtOnce_pure _
  · exact (Chess.neverAsks_playKing move).asksAtOnce
  · apply NeverAsks.asksAtOnce
    apply NeverAsks.bind
    intro value?
    cases value? with
    | none => exact neverAsks_pure (by simp)
    | some value => exact neverAsks_proceed _
  · exact (NeverAsks.bind fun _ => neverAsks_proceed _).asksAtOnce
  · exact (NeverAsks.bind fun _ => neverAsks_proceed _).asksAtOnce
  · exact Chess.asksAtOnce_playBishop move

theorem Chess.asksAtOnce_execute (token : Chess.Token) : (Chess.execute token).AsksAtOnce := by
  cases token with
  | result result => exact asksAtOnce_pure _
  | move move => exact Chess.asksAtOnce_play move
  | castling castling =>
      apply NeverAsks.asksAtOnce
      cases castling with
      | short => exact .bind fun _ => neverAsks_proceed _
      | long =>
          apply NeverAsks.bind
          intro start?
          cases start? with
          | none => exact neverAsks_throw _
          | some start => exact .bind fun _ => neverAsks_yield _

theorem ShortO.asksAtOnce_apply (operator : ShortO.Operator) : operator.apply.AsksAtOnce := by
  cases operator with
  | readCharacter | readText | readNumber => exact asksAtOnce_pure _
  | add | multiply | divide | remainder | toNumber | toCharacter | not | drop | toText
  | characterCodes | skipIf | isText | clearOutput | length | floor =>
      exact (neverAsks_proceed _).asksAtOnce
  | subtract | print | compare | deleteOutput | random | stackLength =>
      exact (NeverAsks.bind fun _ => neverAsks_proceed _).asksAtOnce
  | copy | reverse =>
      exact (NeverAsks.bind fun _ => .bind fun _ => neverAsks_proceed _).asksAtOnce
  | or =>
      apply NeverAsks.asksAtOnce
      apply NeverAsks.bind
      intro value
      split
      · exact neverAsks_proceed _
      · exact .bind fun _ => neverAsks_proceed _
  | and =>
      apply NeverAsks.asksAtOnce
      apply NeverAsks.bind
      intro value
      split
      · exact .bind fun _ => neverAsks_proceed _
      · exact neverAsks_proceed _

theorem ShortO.asksAtOnce_execute {registry : ShortO.Registry}
    (asksAtOnce : registry.All (·.AsksAtOnce)) (token : ShortO.Token) :
    (ShortO.execute registry token).AsksAtOnce := by
  cases token with
  | text text => exact (neverAsks_proceed _).asksAtOnce
  | value value => exact (neverAsks_proceed _).asksAtOnce
  | operator symbol =>
      simp only [ShortO.execute]
      split
      · exact asksAtOnce symbol _ ‹_›
      · exact (neverAsks_throw _).asksAtOnce
  | jump name =>
      apply NeverAsks.asksAtOnce
      apply NeverAsks.bind
      intro machine
      split
      · exact neverAsks_yield _
      · exact neverAsks_throw _

end Esoterica
