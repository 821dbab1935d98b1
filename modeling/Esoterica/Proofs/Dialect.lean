import Esoterica.Brainfuck.Basic
import Esoterica.Chess.Play
import Esoterica.ShortO.Language
import Esoterica.Proofs.Course
import Esoterica.Proofs.Machine.Deed

/-!
# The languages that engines run

What holds of an engine for every language is stated for every dialect: Brainfuck, chess, or the
stack language with any registry. What a registry holds may be any actions on which an engine can
rely, and the operators of the language are such. The instructions of all dialects are tame, they
steer, and they ask at once, and how long a slice may last has no influence on the state in which
their programs start.
-/

namespace Esoterica

open Instruction TapeState

namespace Brainfuck

theorem tame_execute (token : Token) : (execute token).Tame := by
  cases token with
  | right => exact (silent_modifyTape _).orderly.proceed
  | left => exact (silent_modifyTape _).orderly.proceed
  | increment => exact (silent_modifyTape _).orderly.proceed
  | decrement => exact (silent_modifyTape _).orderly.proceed
  | output => exact orderly_writeCell.proceed
  | input => exact (Silent.pure _).tame
  | loopStart =>
      apply Performs.get_bind
      · intro machine
        rfl
      · intro machine
        exact (silent_pushLoop _).orderly.proceed
  | loopEnd =>
      apply silent_popLoop.bind_tame
      intro start?
      cases start? with
      | none => exact (Silent.pure _).tame
      | some start =>
          apply silent_getCell.bind_tame
          intro cell
          split
          · exact ((silent_tryProgram _).bind fun _ => .pure _).tame
          · exact (Silent.pure _).tame

end Brainfuck

namespace Chess

theorem silent_takeParameter : takeParameter.Silent := by
  apply Performs.get_bind
  · intro machine
    rfl
  · intro machine
    apply Silent.bind
    · exact Silent.modify fun _ _ => rfl
    · intro _
      split
      · exact .pure _
      · exact .throw _
      · exact .throw _

theorem silent_takeAmount (move : Move) : (takeAmount move).Silent := by
  unfold takeAmount
  split
  · exact silent_takeParameter
  · exact .pure _

theorem silent_playKing (move : Move) : (playKing move).Silent := by
  apply (silent_takeAmount move).bind
  intro amount
  apply silent_getCell.bind
  intro cell
  split
  · exact .pure _
  · exact (silent_tryProgram _).bind fun _ => .pure _

theorem silent_queenValue (move : Move) : (queenValue? move).Silent := by
  unfold queenValue?
  split
  · exact (silent_draw _).bind fun _ => .pure _
  · apply Performs.get_bind
    · intro machine
      rfl
    · intro machine
      exact Silent.pure _
  · exact silent_getCell.bind fun _ => .pure _
  · split
    · exact silent_takeParameter.bind fun _ => .pure _
    · exact .pure _
  · exact .pure _

theorem tame_playQueen (move : Move) : (playQueen move).Tame := by
  apply (silent_queenValue move).bind_tame
  intro value?
  cases value? with
  | none => exact (Silent.pure _).tame
  | some value => exact (silent_modifyTape _).orderly.proceed

theorem orderly_takeBack (amount : Nat) : (takeBack amount).Orderly := by
  apply Performs.get_bind
  · intro machine
    rfl
  · intro machine
    apply (silent_modifyTape _).bind_orderly
    intro _
    apply orderly_modifyConsole fun output =>
      if amount = 0 then .clear else .keepFirst (output.length - amount)
    intro console
    split
    · rfl
    · rfl

theorem tame_playBishop (move : Move) : (playBishop move).Tame := by
  unfold playBishop
  simp only
  split
  · exact (Silent.pure _).tame
  · split
    · split
      · apply silent_getCell.bind_tame
        intro cell
        exact (orderly_write _).proceed
      · exact orderly_writeCell.proceed
    · apply (silent_takeAmount move).bind_tame
      intro amount
      exact (orderly_takeBack amount).proceed

theorem tame_play (move : Move) : (play move).Tame := by
  unfold play
  simp only
  split
  · exact (Silent.pure _).tame
  · exact (silent_playKing move).tame
  · exact tame_playQueen move
  · apply (silent_takeAmount move).bind_tame
    intro amount
    exact (silent_modifyTape _).orderly.proceed
  · apply (silent_takeAmount move).bind_tame
    intro amount
    exact (silent_modifyTape _).orderly.proceed
  · exact tame_playBishop move

theorem tame_execute (token : Token) : (execute token).Tame := by
  unfold execute
  split
  · exact (Silent.pure _).tame
  · apply Performs.get_bind
    · intro machine
      rfl
    · intro machine
      exact (silent_pushLoop _).orderly.proceed
  · apply silent_popLoop.bind_tame
    intro start?
    cases start? with
    | none => exact (Silent.throw _).tame
    | some start =>
        apply Silent.tame
        apply (silent_tryProgram _).bind
        intro _
        exact (silent_pushLoop start).bind fun _ => .pure _
  · exact tame_play _

end Chess

namespace ShortO

open StackAction

theorem silent_pop : pop.Silent := by
  apply silent_getState.bind
  intro stack
  split
  · exact (silent_modifyState _).bind fun _ => .pure _
  · exact .throw _

theorem silent_push (value : Value) : (push value).Silent := by
  apply silent_getState.bind
  intro stack
  split
  · exact .throw _
  · exact silent_modifyState _

theorem silent_popPair : popPair.Silent := by
  apply silent_pop.bind
  intro right
  exact silent_pop.bind fun _ => .pure _

theorem silent_pushTimes (value : Value) (count : Nat) : (pushTimes value count).Silent := by
  induction count with
  | zero => exact .pure _
  | succ count ih => exact (silent_push value).bind fun _ => ih

theorem silent_pushAll (values : List Value) : (pushAll values).Silent := by
  induction values with
  | nil => exact .pure _
  | cons value rest ih => exact (silent_push value).bind fun _ => ih

theorem silent_popTimes (taken : List Value) (count : Nat) : (popTimes taken count).Silent := by
  induction count generalizing taken with
  | zero => exact .pure _
  | succ count ih => exact silent_pop.bind fun value => ih (value :: taken)

theorem silent_checkLength (symbol : Char) (left right : Value) (requested : Nat) :
    (checkLength symbol left right requested).Silent := by
  unfold checkLength
  split
  · exact .throw _
  · exact .pure _

theorem silent_add : StackAction.add.Silent := by
  apply silent_popPair.bind
  rintro ⟨left, right⟩
  split
  · exact silent_push _
  · exact (silent_checkLength _ _ _ _).bind fun _ => silent_push _

theorem silent_multiplyText (left right : Value) (text : String) (number : Binary64) :
    (multiplyText left right text number).Silent :=
  (silent_checkLength _ _ _ _).bind fun _ => silent_push _

theorem silent_multiply : StackAction.multiply.Silent := by
  apply silent_popPair.bind
  rintro ⟨left, right⟩
  split
  · exact silent_push _
  · exact silent_push _
  · exact silent_multiplyText _ _ _ _
  · exact silent_multiplyText _ _ _ _

theorem silent_arithmetic (operation : Binary64 → Binary64 → Binary64) :
    (arithmetic operation).Silent := by
  apply silent_popPair.bind
  rintro ⟨left, right⟩
  split
  · exact silent_push _
  · exact silent_push _

theorem silent_mapTop (change : Value → Value) : (mapTop change).Silent :=
  silent_pop.bind fun _ => silent_push _

theorem silent_characterCodes : StackAction.characterCodes.Silent := by
  apply silent_pop.bind
  intro value
  cases value with
  | text text => exact silent_pushAll _
  | number number => exact silent_push _

theorem silent_skipIf : StackAction.skipIf.Silent := by
  apply silent_pop.bind
  intro amount
  apply silent_pop.bind
  intro condition
  split
  · exact silent_tryProgram _
  · exact .pure _

theorem tame_apply (operator : Operator) : operator.apply.Tame := by
  cases operator with
  | add => exact silent_add.orderly.proceed
  | subtract => exact silent_popPair.bind_tame fun _ => (silent_push _).orderly.proceed
  | multiply => exact silent_multiply.orderly.proceed
  | divide => exact (silent_arithmetic _).orderly.proceed
  | remainder => exact (silent_arithmetic _).orderly.proceed
  | toNumber => exact (silent_mapTop _).orderly.proceed
  | toCharacter => exact (silent_mapTop _).orderly.proceed
  | print => exact silent_pop.bind_tame fun _ => (orderly_write _).proceed
  | not => exact (silent_mapTop _).orderly.proceed
  | drop => exact silent_pop.orderly.proceed
  | copy =>
      apply silent_pop.bind_tame
      intro count
      exact silent_pop.bind_tame fun _ => (silent_pushTimes _ _).orderly.proceed
  | toText => exact (silent_mapTop _).orderly.proceed
  | characterCodes => exact silent_characterCodes.orderly.proceed
  | skipIf => exact silent_skipIf.orderly.proceed
  | readCharacter => exact (Silent.pure _).tame
  | compare => exact silent_popPair.bind_tame fun _ => (silent_push _).orderly.proceed
  | reverse =>
      apply silent_pop.bind_tame
      intro count
      exact (silent_popTimes _ _).bind_tame fun _ => (silent_pushAll _).orderly.proceed
  | readText => exact (Silent.pure _).tame
  | readNumber => exact (Silent.pure _).tame
  | deleteOutput =>
      apply silent_pop.bind_tame
      intro amount
      apply Orderly.proceed
      apply orderly_modifyConsole fun output =>
        .keepFirst (cutPoint (Binary64.ofNat output.length - amount.count) output.length)
      intro console
      rfl
  | isText => exact (silent_mapTop _).orderly.proceed
  | clearOutput => exact (orderly_modifyConsole (fun _ => .clear) fun _ => rfl).proceed
  | length => exact (silent_mapTop _).orderly.proceed
  | or =>
      apply silent_pop.bind_tame
      intro value
      split
      · exact (silent_push _).orderly.proceed
      · exact silent_pop.bind_tame fun _ => (silent_push _).orderly.proceed
  | and =>
      apply silent_pop.bind_tame
      intro value
      split
      · exact silent_pop.bind_tame fun _ => (silent_push _).orderly.proceed
      · exact (silent_push _).orderly.proceed
  | random => exact (silent_draw _).bind_tame fun _ => (silent_push _).orderly.proceed
  | floor => exact (silent_mapTop _).orderly.proceed
  | stackLength => exact silent_getState.bind_tame fun _ => (silent_push _).orderly.proceed

theorem silent_jump (name : String) : (jump name).Silent := by
  apply Performs.get_bind
  · intro machine
    rfl
  · intro machine
    split
    · exact (silent_tryProgram _).bind fun _ => .pure _
    · exact Silent.throw _

theorem tame_execute {registry : Registry} (tame : registry.All (·.Tame)) (token : Token) :
    (execute registry token).Tame := by
  cases token with
  | text text => exact (orderly_write text).proceed
  | value value => exact (silent_push value).orderly.proceed
  | operator symbol =>
      simp only [execute]
      split
      · exact tame symbol _ ‹_›
      · exact (Silent.throw _).tame
  | jump name => exact (silent_jump name).tame

end ShortO

namespace Instruction

/--
Engines can rely on the instruction: it leaves the console alone unless the run simply goes on after
it, keeps to its program, and does nothing else where it asks for input.
-/
structure Regular {Token State : Type} (action : Instruction Token State Flow) : Prop where
  tame : action.Tame
  steers : action.Steers
  asksAtOnce : action.AsksAtOnce

end Instruction

namespace ShortO

theorem regular_apply (operator : Operator) : operator.apply.Regular where
  tame := tame_apply operator
  steers := steers_apply operator
  asksAtOnce := asksAtOnce_apply operator

theorem Registry.OfOperators.regular {registry : Registry} (ofOperators : registry.OfOperators) :
    registry.All (·.Regular) :=
  ofOperators.all regular_apply

theorem regular_execute {registry : Registry} (regular : registry.All (·.Regular))
    (token : Token) : (execute registry token).Regular where
  tame := tame_execute (fun symbol entry found => (regular symbol entry found).tame) token
  steers := steers_execute (fun symbol entry found => (regular symbol entry found).steers) token
  asksAtOnce :=
    asksAtOnce_execute (fun symbol entry found => (regular symbol entry found).asksAtOnce) token

end ShortO

/-- The languages that engines run. -/
inductive Dialect where
  | brainfuck
  | chess
  | shortO (registry : ShortO.Registry) (regular : registry.All (·.Regular))

namespace Dialect

/-- The stack language with its operators under their usual symbols. -/
def standard : Dialect :=
  shortO .standard ShortO.Registry.ofOperators_standard.regular

def Token : Dialect → Type
  | brainfuck => Brainfuck.Token
  | chess => Chess.Token
  | shortO _ _ => ShortO.Token

def State : Dialect → Type
  | brainfuck | chess => TapeState
  | shortO _ _ => ShortO.Stack

def language : (dialect : Dialect) → Language dialect.Token dialect.State
  | brainfuck => Brainfuck.language
  | chess => Chess.language
  | shortO registry _ => ShortO.language registry

theorem regular_execute (dialect : Dialect) (token : dialect.Token) :
    (dialect.language.execute token).Regular := by
  cases dialect with
  | brainfuck =>
      exact ⟨Brainfuck.tame_execute token, Brainfuck.steers_execute token,
        Brainfuck.asksAtOnce_execute token⟩
  | chess =>
      exact ⟨Chess.tame_execute token, Chess.steers_execute token, Chess.asksAtOnce_execute token⟩
  | shortO registry regular => exact ShortO.regular_execute regular token

theorem tame_execute (dialect : Dialect) (token : dialect.Token) :
    (dialect.language.execute token).Tame :=
  (dialect.regular_execute token).tame

theorem steers_execute (dialect : Dialect) (token : dialect.Token) :
    (dialect.language.execute token).Steers :=
  (dialect.regular_execute token).steers

theorem asksAtOnce_execute (dialect : Dialect) (token : dialect.Token) :
    (dialect.language.execute token).AsksAtOnce :=
  (dialect.regular_execute token).asksAtOnce

/-- Where programs start depends on nothing that decides how long slices are. -/
theorem initial_eq (dialect : Dialect) (options : Options) (stepBudget timeSlice : Nat) :
    dialect.language.initial { options with stepBudget, timeSlice } =
      dialect.language.initial options := by
  cases dialect with
  | brainfuck => rfl
  | chess => rfl
  | shortO registry regular => rfl

end Dialect

end Esoterica
