import Esoterica.Brainfuck.Basic
import Esoterica.Chess.Play
import Esoterica.ShortO.Language

/-!
# How instructions are put together

The instructions of a language are sequences of a few primitive ones, chosen by what was found
before. `Composed` says so of an instruction, without its details, and with which faults it fails on
its own account. What is kept by the primitives of a language and by sequences is then kept by all
its tokens.
-/

namespace Esoterica

namespace Instruction

variable {Token State : Type}

/-- The instruction is put together from primitive ones, and may itself fail with some faults. -/
inductive Composed (primitive : (α : Type) → Instruction Token State α → Prop)
    (throws : Fault → Prop) : (α : Type) → Instruction Token State α → Prop where
  | primitive {α : Type} {action : Instruction Token State α} (isPrimitive : primitive α action) :
      Composed primitive throws α action
  | pure {α : Type} (value : α) : Composed primitive throws α (pure value)
  | throw {α : Type} {fault : Fault} (thrown : throws fault) :
      Composed primitive throws α (throw fault)
  | bind {α β : Type} {first : Instruction Token State α} {rest : α → Instruction Token State β}
      (composed : Composed primitive throws α first)
      (restComposed : ∀ value, Composed primitive throws β (rest value)) :
      Composed primitive throws β (first >>= rest)

theorem Composed.mono {primitive wider : (α : Type) → Instruction Token State α → Prop}
    {throws throwsToo : Fault → Prop} (widens : ∀ α action, primitive α action → wider α action)
    (allows : ∀ fault, throws fault → throwsToo fault) {α : Type}
    {action : Instruction Token State α} (composed : Composed primitive throws α action) :
    Composed wider throwsToo α action := by
  induction composed with
  | primitive isPrimitive => exact .primitive (widens _ _ isPrimitive)
  | pure value => exact .pure value
  | throw thrown => exact .throw (allows _ thrown)
  | bind _ _ ih restIh => exact .bind ih restIh

end Instruction

open Instruction

namespace TapeState

variable {Token : Type} {throws : Fault → Prop}

/-- What the languages of the tape do to a machine, apart from where they go on. -/
inductive Primitive : (α : Type) → Instruction Token TapeState α → Prop where
  | look : Primitive _ get
  | modifyTape (change : Tape → Tape) : Primitive _ (modifyTape change)
  | modifyConsole (change : Console → Console) : Primitive _ (modifyConsole change)
  | pushLoop (start : Nat) : Primitive _ (pushLoop start)
  | popLoop : Primitive _ popLoop?
  | draw {α : Type} (drawn : RandomStream → α × RandomStream) : Primitive _ (draw drawn)
  | goTo (index : Nat) : Primitive _ (tryProgram (·.goTo index))
  | skip (offset : Int) : Primitive _ (tryProgram (·.skip offset))

section

variable {primitive : (α : Type) → Instruction Token TapeState α → Prop}

theorem composed_getCell (look : primitive _ get) :
    Composed primitive throws UInt8 (getCell : Instruction Token TapeState UInt8) := by
  apply Composed.bind
  · exact .bind (.primitive look) fun machine => .pure machine.state
  · intro state
    exact .pure state.tape.cell

theorem composed_writeCell (look : primitive _ get)
    (edit : ∀ change, primitive _ (modifyConsole change)) :
    Composed primitive throws Unit (writeCell : Instruction Token TapeState Unit) :=
  .bind (composed_getCell look) fun _ => .primitive (edit _)

end

end TapeState

namespace Brainfuck

open TapeState

theorem composed_execute (token : Token) :
    Composed Primitive (fun _ => False) Flow (execute token) := by
  cases token with
  | right | left | increment | decrement =>
      exact .bind (.primitive (.modifyTape _)) fun _ => .pure Flow.proceed
  | output => exact .bind (composed_writeCell .look .modifyConsole) fun _ => .pure Flow.proceed
  | input => exact .pure (Flow.ask .char)
  | loopStart =>
      apply Composed.bind (.primitive .look)
      intro machine
      exact .bind (.primitive (.pushLoop _)) fun _ => .pure Flow.proceed
  | loopEnd =>
      apply Composed.bind (.primitive .popLoop)
      intro start?
      cases start? with
      | none => exact .pure Flow.yield
      | some start =>
          apply Composed.bind (composed_getCell .look)
          intro cell
          split
          · exact .bind (.primitive (.goTo start)) fun _ => .pure Flow.yield
          · exact .pure Flow.yield

end Brainfuck

namespace Chess

open TapeState

/-- A game also takes tokens as numbers. -/
inductive Primitive : (α : Type) → Instruction Token TapeState α → Prop where
  | takeParameter : Primitive _ takeParameter
  | ofTape {α : Type} {action : Instruction Token TapeState α}
      (isPrimitive : TapeState.Primitive α action) : Primitive α action

/-- What moves do to a machine. They neither start loops nor go back to their starts. -/
inductive Movement : (α : Type) → Instruction Token TapeState α → Prop where
  | takeParameter : Movement _ takeParameter
  | look : Movement _ get
  | modifyTape (change : Tape → Tape) : Movement _ (modifyTape change)
  | modifyConsole (change : Console → Console) : Movement _ (modifyConsole change)
  | draw {α : Type} (drawn : RandomStream → α × RandomStream) : Movement _ (draw drawn)
  | skip (offset : Int) : Movement _ (tryProgram (·.skip offset))

theorem Movement.primitive {α : Type} {action : Instruction Token TapeState α}
    (isMovement : Movement α action) : Primitive α action := by
  cases isMovement with
  | takeParameter => exact .takeParameter
  | look => exact .ofTape .look
  | modifyTape change => exact .ofTape (.modifyTape change)
  | modifyConsole change => exact .ofTape (.modifyConsole change)
  | draw drawn => exact .ofTape (.draw drawn)
  | skip offset => exact .ofTape (.skip offset)

variable {throws : Fault → Prop}

theorem composed_takeAmount (move : Move) : Composed Movement throws Nat (takeAmount move) := by
  simp only [takeAmount]
  split
  · exact .primitive .takeParameter
  · exact .pure 1

theorem composed_playKing (move : Move) : Composed Movement throws Flow (playKing move) := by
  apply Composed.bind (composed_takeAmount move)
  intro amount
  apply Composed.bind (composed_getCell .look)
  intro cell
  split
  · exact .pure Flow.proceed
  · exact .bind (.primitive (.skip _)) fun _ => .pure Flow.yield

theorem composed_queenValue (move : Move) :
    Composed Movement throws (Option Nat) (queenValue? move) := by
  simp only [queenValue?]
  split
  · exact .bind (.primitive (.draw _)) fun _ => .pure _
  · exact .bind (.primitive .look) fun _ => .pure _
  · exact .bind (composed_getCell .look) fun _ => .pure _
  · split
    · exact .bind (.primitive .takeParameter) fun _ => .pure _
    · exact .pure _
  · exact .pure none

theorem composed_playQueen (move : Move) : Composed Movement throws Flow (playQueen move) := by
  apply Composed.bind (composed_queenValue move)
  intro value?
  cases value? with
  | none => exact .pure Flow.proceed
  | some value => exact .bind (.primitive (.modifyTape _)) fun _ => .pure Flow.proceed

theorem composed_takeBack (amount : Nat) : Composed Movement throws Unit (takeBack amount) := by
  apply Composed.bind (.primitive .look)
  intro machine
  exact .bind (.primitive (.modifyTape _)) fun _ => .primitive (.modifyConsole _)

theorem composed_playBishop (move : Move) : Composed Movement throws Flow (playBishop move) := by
  simp only [playBishop]
  split
  · exact .pure _
  · split
    · split
      · apply Composed.bind (composed_getCell .look)
        intro cell
        exact .bind (.primitive (.modifyConsole _)) fun _ => .pure Flow.proceed
      · exact .bind (composed_writeCell .look .modifyConsole) fun _ => .pure Flow.proceed
    · apply Composed.bind (composed_takeAmount move)
      intro amount
      exact .bind (composed_takeBack amount) fun _ => .pure Flow.proceed

theorem composed_play (move : Move) : Composed Movement throws Flow (play move) := by
  simp only [play]
  split
  · exact .pure Flow.proceed
  · exact composed_playKing move
  · exact composed_playQueen move
  · apply Composed.bind (composed_takeAmount move)
    intro amount
    exact .bind (.primitive (.modifyTape _)) fun _ => .pure Flow.proceed
  · apply Composed.bind (composed_takeAmount move)
    intro amount
    exact .bind (.primitive (.modifyTape _)) fun _ => .pure Flow.proceed
  · exact composed_playBishop move

theorem composed_execute (token : Token) :
    Composed Primitive (· = .missingLoopStart) Flow (execute token) := by
  cases token with
  | result result => exact .pure Flow.halt
  | castling castling =>
      cases castling with
      | short =>
          apply Composed.bind (.primitive (.ofTape .look))
          intro machine
          exact .bind (.primitive (.ofTape (.pushLoop _))) fun _ => .pure Flow.proceed
      | long =>
          apply Composed.bind (.primitive (.ofTape .popLoop))
          intro start?
          cases start? with
          | none => exact .throw rfl
          | some start =>
              apply Composed.bind (.primitive (.ofTape (.goTo start)))
              intro _
              exact .bind (.primitive (.ofTape (.pushLoop start))) fun _ => .pure Flow.yield
  | move move => exact (composed_play move).mono (fun _ _ => Movement.primitive) fun _ => id

end Chess

namespace ShortO

open StackAction

theorem pop_eq (machine : Machine Token Stack) :
    pop machine =
      match machine.state.top? with
      | some value => .ok value { machine with state := machine.state.pop }
      | none => .error .emptyStack machine := by
  change (match machine.state.top? with
    | some value => (modifyState Stack.pop >>= fun _ => pure value : StackAction Value)
    | none => throw Fault.emptyStack) machine = _
  cases machine.state.top? with
  | some value => rfl
  | none => rfl

theorem push_eq (value : Value) (machine : Machine Token Stack) :
    push value machine =
      if machine.state.isFull then .error .fullStack machine
      else .ok () { machine with state := machine.state.push value } := by
  change (if machine.state.isFull then (throw Fault.fullStack : StackAction Unit)
    else modifyState (·.push value)) machine = _
  split
  · rfl
  · rfl

/-- What the stack language does to a machine, and a look at all of it where that is allowed. -/
inductive Primitive (looks : Prop) : (α : Type) → StackAction α → Prop where
  | look (allowed : looks) : Primitive looks _ get
  | pop : Primitive looks _ pop
  | push (value : Value) : Primitive looks _ (push value)
  | modifyConsole (change : Console → Console) : Primitive looks _ (modifyConsole change)
  | draw {α : Type} (drawn : RandomStream → α × RandomStream) : Primitive looks _ (draw drawn)
  | goTo (index : Nat) : Primitive looks _ (tryProgram (·.goTo index))
  | skip (offset : Int) : Primitive looks _ (tryProgram (·.skip offset))

/-- A text would have become too long. -/
def Overlong (fault : Fault) : Prop :=
  ∃ symbol left right requested, fault = .textTooLong symbol left right requested

variable {looks : Prop}

theorem composed_pop : Composed (Primitive looks) Overlong Value pop :=
  .primitive .pop

theorem composed_push (value : Value) : Composed (Primitive looks) Overlong Unit (push value) :=
  .primitive (.push value)

theorem composed_popPair : Composed (Primitive looks) Overlong (Value × Value) popPair := by
  apply Composed.bind composed_pop
  intro right
  exact .bind composed_pop fun left => .pure (left, right)

theorem composed_pushTimes (value : Value) (count : Nat) :
    Composed (Primitive looks) Overlong Unit (pushTimes value count) := by
  induction count with
  | zero => exact .pure ()
  | succ count ih => exact .bind (composed_push value) fun _ => ih

theorem composed_pushAll (values : List Value) :
    Composed (Primitive looks) Overlong Unit (pushAll values) := by
  induction values with
  | nil => exact .pure ()
  | cons value rest ih => exact .bind (composed_push value) fun _ => ih

theorem composed_popTimes (taken : List Value) (count : Nat) :
    Composed (Primitive looks) Overlong (List Value) (popTimes taken count) := by
  induction count generalizing taken with
  | zero => exact .pure taken
  | succ count ih => exact .bind composed_pop fun value => ih (value :: taken)

theorem composed_checkLength (symbol : Char) (left right : Value) (requested : Nat) :
    Composed (Primitive looks) Overlong Unit (checkLength symbol left right requested) := by
  simp only [checkLength]
  split
  · exact .throw ⟨_, _, _, _, rfl⟩
  · exact .pure ()

theorem composed_add : Composed (Primitive looks) Overlong Unit StackAction.add := by
  apply Composed.bind composed_popPair
  rintro ⟨left, right⟩
  split
  · exact composed_push _
  · exact .bind (composed_checkLength _ _ _ _) fun _ => composed_push _

theorem composed_multiplyText (left right : Value) (text : String) (number : Binary64) :
    Composed (Primitive looks) Overlong Unit (multiplyText left right text number) :=
  .bind (composed_checkLength _ _ _ _) fun _ => composed_push _

theorem composed_multiply : Composed (Primitive looks) Overlong Unit StackAction.multiply := by
  apply Composed.bind composed_popPair
  rintro ⟨left, right⟩
  split
  · exact composed_push _
  · exact composed_push _
  · exact composed_multiplyText _ _ _ _
  · exact composed_multiplyText _ _ _ _

theorem composed_arithmetic (operation : Binary64 → Binary64 → Binary64) :
    Composed (Primitive looks) Overlong Unit (arithmetic operation) := by
  apply Composed.bind composed_popPair
  rintro ⟨left, right⟩
  split
  · exact composed_push _
  · exact composed_push _

theorem composed_mapTop (change : Value → Value) :
    Composed (Primitive looks) Overlong Unit (mapTop change) :=
  .bind composed_pop fun _ => composed_push _

theorem composed_characterCodes :
    Composed (Primitive looks) Overlong Unit StackAction.characterCodes := by
  apply Composed.bind composed_pop
  intro value
  cases value with
  | text text => exact composed_pushAll _
  | number number => exact composed_push _

theorem composed_skipIf : Composed (Primitive looks) Overlong Unit StackAction.skipIf := by
  apply Composed.bind composed_pop
  intro amount
  apply Composed.bind composed_pop
  intro condition
  split
  · exact .primitive (.skip _)
  · exact .pure ()

/-- The run goes on behind an operator that is composed. -/
theorem composed_proceed {α : Type} {action : StackAction α}
    (composed : Composed (Primitive looks) Overlong α action) :
    Composed (Primitive looks) Overlong Flow (action >>= fun _ => pure Flow.proceed) :=
  .bind composed fun _ => .pure Flow.proceed

/-- All operators but one act on what they find without a look at the whole stack. -/
theorem composed_apply (operator : Operator) (allowed : operator = .stackLength → looks) :
    Composed (Primitive looks) Overlong Flow operator.apply := by
  cases operator with
  | add => exact composed_proceed composed_add
  | multiply => exact composed_proceed composed_multiply
  | divide | remainder => exact composed_proceed (composed_arithmetic _)
  | toNumber | toCharacter | not | toText | isText | length | floor =>
      exact composed_proceed (composed_mapTop _)
  | subtract | compare =>
      exact .bind composed_popPair fun _ => composed_proceed (composed_push _)
  | print | deleteOutput =>
      exact .bind composed_pop fun _ => composed_proceed (.primitive (.modifyConsole _))
  | drop => exact composed_proceed composed_pop
  | copy =>
      apply Composed.bind composed_pop
      intro count
      exact .bind composed_pop fun _ => composed_proceed (composed_pushTimes _ _)
  | characterCodes => exact composed_proceed composed_characterCodes
  | skipIf => exact composed_proceed composed_skipIf
  | readCharacter | readText | readNumber => exact .pure _
  | reverse =>
      apply Composed.bind composed_pop
      intro count
      exact .bind (composed_popTimes _ _) fun _ => composed_proceed (composed_pushAll _)
  | clearOutput => exact composed_proceed (.primitive (.modifyConsole _))
  | or =>
      apply Composed.bind composed_pop
      intro value
      split
      · exact composed_proceed (composed_push _)
      · exact .bind composed_pop fun _ => composed_proceed (composed_push _)
  | and =>
      apply Composed.bind composed_pop
      intro value
      split
      · exact .bind composed_pop fun _ => composed_proceed (composed_push _)
      · exact composed_proceed (composed_push _)
  | random =>
      apply Composed.bind (.primitive (.draw _))
      intro fraction
      exact composed_proceed (composed_push _)
  | stackLength =>
      apply Composed.bind
      · exact .bind (.primitive (.look (allowed rfl))) fun machine => .pure machine.state
      · intro stack
        exact composed_proceed (composed_push _)

theorem composed_jump (name : String) :
    Composed (Primitive True) (· = .unknownMarker name) Flow (jump name) := by
  apply Composed.bind (.primitive (.look trivial))
  intro machine
  split
  · exact .bind (.primitive (.goTo _)) fun _ => .pure Flow.yield
  · exact .throw rfl

namespace Registry

/-- All that symbols of the registry stand for has the property. -/
def All (registry : Registry) (holds : StackAction Flow → Prop) : Prop :=
  ∀ symbol entry, registry.find? symbol = some entry → holds entry.apply

/-- The symbols of the registry stand for operators of the language only. -/
def OfOperators (registry : Registry) : Prop :=
  registry.All fun action => ∃ operator : Operator, action = operator.apply

variable {registry : Registry} {holds : StackAction Flow → Prop}

theorem OfOperators.all (ofOperators : registry.OfOperators)
    (operators : ∀ operator : Operator, holds operator.apply) : registry.All holds := by
  intro symbol entry found
  rcases ofOperators symbol entry found with ⟨operator, same⟩
  rw [same]
  exact operators operator

theorem find?_register (registry : Registry) (symbol other : Char) (entry : Entry) :
    (registry.register symbol entry).find? other =
      if other = symbol then some entry else registry.find? other := by
  have lookup_filter (entries : List (Char × Entry)) :
      (entries.filter (·.1 != symbol)).lookup other =
        if other = symbol then none else entries.lookup other := by
    induction entries with
    | nil => simp
    | cons pair rest ih => grind
  simp only [find?, register, List.lookup_append, lookup_filter]
  by_cases same : other = symbol
  · simp [same]
  · simp [same, List.lookup_cons, beq_eq_false_iff_ne.mpr same]

theorem All.register {symbol : Char} {entry : Entry} (all : registry.All holds)
    (held : holds entry.apply) : (registry.register symbol entry).All holds := by
  intro other found lookup
  rw [find?_register] at lookup
  split at lookup
  · cases lookup
    exact held
  · exact all other found lookup

theorem find?_standard (symbol : Char) :
    standard.find? symbol = (symbols.lookup symbol).map Operator.entry := by
  simp only [find?, standard]
  induction symbols with
  | nil => rfl
  | cons pair rest ih =>
      rcases pair with ⟨usual, operator⟩
      cases same : symbol == usual with
      | true => simp [List.lookup_cons, same]
      | false => simp [List.lookup_cons, same, ih]

/-- Under the usual symbols, a symbol that stands for something is one of those of operators. -/
theorem exists_operator_of_find {symbol : Char} {entry : Entry}
    (found : standard.find? symbol = some entry) :
    ∃ operator, (symbol, operator) ∈ symbols ∧ entry = operator.entry := by
  rw [find?_standard] at found
  rcases Option.map_eq_some_iff.mp found with ⟨operator, listed, rfl⟩
  rcases List.lookup_eq_some_iff.mp listed with ⟨before, after, split, _⟩
  refine ⟨operator, ?_, rfl⟩
  rw [split]
  exact List.mem_append_right before List.mem_cons_self

theorem ofOperators_standard : standard.OfOperators := by
  intro symbol entry found
  rcases exists_operator_of_find found with ⟨operator, _, rfl⟩
  exact ⟨operator, rfl⟩

end Registry

/-- Only tokens without a meaning fail in other ways than operators do. -/
theorem composed_execute {registry : Registry} (ofOperators : registry.OfOperators)
    (token : Token) : Composed (Primitive True) (fun _ => True) Flow (execute registry token) := by
  have widened {throws : Fault → Prop} {action : StackAction Flow}
      (composed : Composed (Primitive True) throws Flow action) :
      Composed (Primitive True) (fun _ => True) Flow action :=
    composed.mono (fun _ _ => id) fun _ _ => trivial
  cases token with
  | text text => exact widened (composed_proceed (.primitive (.modifyConsole _)))
  | value value => exact widened (composed_proceed (composed_push value))
  | operator symbol =>
      simp only [execute]
      split
      · rename_i entry found
        rcases ofOperators symbol entry found with ⟨operator, same⟩
        rw [same]
        exact widened (composed_apply operator fun _ => trivial)
      · exact .throw trivial
  | jump name => exact widened (composed_jump name)

end ShortO

end Esoterica
