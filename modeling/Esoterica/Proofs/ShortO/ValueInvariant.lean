import Esoterica.Proofs.Engine.Cancellation
import Esoterica.Proofs.Engine.Invariant
import Esoterica.Proofs.ShortO.Bound
import Esoterica.Proofs.ShortO.Resolution
import Esoterica.Proofs.ShortO.Values

/-!
# The values of a run

At every moment of a run, the numbers on its stack are finite, and no text on it is longer than the
longest that operators may build, the longest string of the program and the longest line that was
typed. What operators make of values is the matter of another module; here it is carried from single
actions to tokens and answers, and from these to runs.
-/

namespace Esoterica

namespace Act

/-- The line that was committed. -/
def line? {Token : Type} : Act Token → Option String
  | answered answer _ => some answer.line
  | started _ | executed _ _ _ | concluded _ | cancelled => none

end Act

namespace Engine

variable {Token State : Type} {first engine : Engine Token State}

/-- Acts lead from one engine to the other, and none of them starts a program or commits a line. -/
def Uncommitted (first engine : Engine Token State) : Prop :=
  ∃ acts, first.Chronicle acts engine ∧ Act.NoStart acts ∧ acts.filterMap Act.line? = []

theorem Uncommitted.refl (engine : Engine Token State) : engine.Uncommitted engine :=
  ⟨[], .nil, by simp [Act.NoStart], rfl⟩

theorem Uncommitted.tick (uncommitted : first.Uncommitted engine)
    (running : engine.status = .running) (unrequested : engine.cancelRequested = false)
    (fetches : (engine.phase.run?.bind (·.program.current?)).isSome = true) :
    first.Uncommitted engine.tick.1 := by
  rcases uncommitted with ⟨acts, chronicle, noStart, noLine⟩
  rcases exists_does_tick running unrequested fetches with ⟨index, token, result, does⟩
  refine ⟨_, chronicle.snoc does, ?_, ?_⟩
  · exact Act.noStart_append.mpr ⟨noStart, by simp [Act.NoStart]⟩
  · rw [List.filterMap_append, noLine]
    rfl

theorem Uncommitted.edit {key : Key} (uncommitted : first.Uncommitted engine)
    (uncancelled : (engine.cancelRequested || (key == .escape && engine.status.isActive)) = false)
    (uncommits : engine.committed? key = none) : first.Uncommitted (engine.respond key).1 := by
  have responded := respond_responded engine key
  generalize engine.respond key = response at responded ⊢
  cases responded with
  | cancelled _ wanted => cases uncancelled.symm.trans wanted
  | accepted _ commits | refused _ commits => cases uncommits.symm.trans commits
  | ignored => exact uncommitted
  | edited suspended =>
      rcases uncommitted with ⟨acts, chronicle, noStart, noLine⟩
      have unrequested := (Bool.or_eq_false_iff.mp uncancelled).1
      have typed := chronicle.snoc (.edit suspended unrequested uncommits)
      rw [List.append_nil] at typed
      exact ⟨acts, typed, noStart, noLine⟩

/-- A key that commits an answer adds the line of that answer, and no other. -/
theorem Uncommitted.commit {key : Key} {answer : Answer} (uncommitted : first.Uncommitted engine)
    (commits : engine.committed? key = some answer) :
    ∃ acts, first.Chronicle acts (engine.respond key).1 ∧ Act.NoStart acts ∧
      acts.filterMap Act.line? = [answer.line] := by
  rcases uncommitted with ⟨acts, chronicle, noStart, noLine⟩
  cases phase : engine.phase with
  | suspended run prompt =>
      refine ⟨_, chronicle.snoc (.answer phase commits), ?_, ?_⟩
      · exact Act.noStart_append.mpr ⟨noStart, by simp [Act.NoStart]⟩
      · rw [List.filterMap_append, noLine]
        rfl
  | idle | running | completed | failed | cancelled =>
      simp [committed?, phase] at commits

end Engine

namespace ShortO

open Instruction StackAction

namespace Stack

variable {limit : Nat} {stack : Stack} {value : Value}

/-- The stack is within its bound, which a machine word can count, and its values are in range. -/
structure Sound (limit : Nat) (stack : Stack) : Prop where
  within : ∀ value ∈ stack.values, value.Within limit
  hasRoom : stack.HasRoom 0
  capacity_lt : stack.capacity < UInt64.size

theorem Sound.size_lt (sound : stack.Sound limit) : stack.values.size < UInt64.size :=
  Nat.lt_of_le_of_lt sound.hasRoom sound.capacity_lt

theorem Sound.top (sound : stack.Sound limit) (top : stack.top? = some value) :
    value.Within limit :=
  sound.within value (Array.mem_of_back? top)

theorem Sound.pop (sound : stack.Sound limit) : stack.pop.Sound limit where
  within other mem := by
    apply sound.within other
    have kept : other ∈ stack.values.toList.dropLast := by
      simpa [Stack.pop, ← Array.toList_pop] using mem
    exact Array.mem_def.mpr ((List.dropLast_sublist _).subset kept)
  hasRoom := by
    have room : stack.values.size + 0 ≤ stack.capacity := sound.hasRoom
    simp only [HasRoom, Stack.pop, Array.size_pop]
    omega
  capacity_lt := sound.capacity_lt

theorem Sound.push (sound : stack.Sound limit) (notFull : stack.isFull = false)
    (within : value.Within limit) : (stack.push value).Sound limit where
  within other mem := by
    rcases Array.mem_push.mp mem with mem | rfl
    · exact sound.within other mem
    · exact within
  hasRoom := (isFull_eq_false_iff.mp notFull).push value
  capacity_lt := sound.capacity_lt

end Stack

namespace StackAction

variable {α β : Type} {limit : Nat} {post : α → Prop}

/--
Where the stack is sound, the action leaves it so, also if it fails, and gives a result of which
`post` holds if it does not.
-/
def Upholds (limit : Nat) (action : StackAction α) (post : α → Prop) : Prop :=
  ∀ machine, machine.state.Sound limit →
    match action machine with
    | .ok value after => after.state.Sound limit ∧ post value
    | .error _ after => after.state.Sound limit

theorem Upholds.bind {first : StackAction α} {rest : α → StackAction β} {last : β → Prop}
    (upholds : Upholds limit first post)
    (restUpholds : ∀ value, post value → Upholds limit (rest value) last) :
    Upholds limit (first >>= rest) last := by
  intro machine sound
  have upheld := upholds machine sound
  simp only [Bind.bind, EStateM.bind]
  cases executed : first machine with
  | ok value middle =>
      rw [executed] at upheld
      exact restUpholds value upheld.2 middle upheld.1
  | error fault middle =>
      rw [executed] at upheld
      exact upheld

theorem Upholds.relates {action : StackAction α} (upholds : Upholds limit action post) :
    action.Relates fun before after => before.state.Sound limit → after.state.Sound limit := by
  intro machine sound
  have upheld := upholds machine sound
  unfold Instruction.after
  split
  case h_1 executed =>
    rw [executed] at upheld
    exact upheld.1
  case h_2 executed =>
    rw [executed] at upheld
    exact upheld

theorem upholds_pure {value : α} (holds : post value) : Upholds limit (pure value) post :=
  fun _ sound => ⟨sound, holds⟩

theorem upholds_throw (fault : Fault) : Upholds limit (throw fault) post :=
  fun _ sound => sound

theorem Upholds.get_bind {rest : Machine Token Stack → StackAction α}
    (upholds : ∀ machine, Upholds limit (rest machine) post) :
    Upholds limit (get >>= rest) post :=
  fun machine sound => upholds machine machine sound

theorem upholds_getState : Upholds limit getState (Stack.Sound limit) :=
  fun _ sound => ⟨sound, sound⟩

theorem upholds_modifyConsole (change : Console → Console) :
    Upholds limit (modifyConsole change) fun _ => True :=
  fun _ sound => ⟨sound, trivial⟩

theorem upholds_tryProgram (change : Program Token → Except Fault (Program Token)) :
    Upholds limit (tryProgram change) fun _ => True := by
  intro machine sound
  rw [tryProgram_eq]
  cases change machine.program with
  | ok program => exact ⟨sound, trivial⟩
  | error fault => exact sound

theorem upholds_draw {drawn : RandomStream → α × RandomStream}
    (holds : ∀ stream, post (drawn stream).1) : Upholds limit (draw drawn) post :=
  fun machine sound => ⟨sound, holds machine.random⟩

theorem upholds_pop : Upholds limit pop (Value.Within limit) := by
  intro machine sound
  rw [pop_eq]
  cases top : machine.state.top? with
  | some value => exact ⟨sound.pop, sound.top top⟩
  | none => exact sound

theorem upholds_push {value : Value} (within : value.Within limit) :
    Upholds limit (push value) fun _ => True := by
  intro machine sound
  rw [push_eq]
  cases full : machine.state.isFull with
  | true => exact sound
  | false => exact ⟨sound.push full within, trivial⟩

theorem upholds_popPair :
    Upholds limit popPair fun pair => pair.1.Within limit ∧ pair.2.Within limit := by
  apply upholds_pop.bind
  intro right rightWithin
  apply upholds_pop.bind
  intro left leftWithin
  exact upholds_pure ⟨leftWithin, rightWithin⟩

theorem upholds_pushTimes {value : Value} (within : value.Within limit) (count : Nat) :
    Upholds limit (pushTimes value count) fun _ => True := by
  induction count with
  | zero => exact upholds_pure trivial
  | succ count ih => exact (upholds_push within).bind fun _ _ => ih

theorem upholds_pushAll {values : List Value} (within : ∀ value ∈ values, value.Within limit) :
    Upholds limit (pushAll values) fun _ => True := by
  induction values with
  | nil => exact upholds_pure trivial
  | cons value rest ih =>
      rcases List.forall_mem_cons.mp within with ⟨first, later⟩
      exact (upholds_push first).bind fun _ _ => ih later

theorem upholds_popTimes {taken : List Value} (within : ∀ value ∈ taken, value.Within limit)
    (count : Nat) :
    Upholds limit (popTimes taken count) fun values => ∀ value ∈ values, value.Within limit := by
  induction count generalizing taken with
  | zero => exact upholds_pure within
  | succ count ih =>
      apply upholds_pop.bind
      intro value first
      exact ih (List.forall_mem_cons.mpr ⟨first, within⟩)

theorem upholds_checkLength (symbol : Char) (left right : Value) (requested : Nat) :
    Upholds limit (checkLength symbol left right requested) fun _ => requested ≤ maxTextLength := by
  unfold checkLength
  split
  · exact upholds_throw _
  · rename_i passes
    exact upholds_pure (Nat.le_of_not_lt passes)

theorem upholds_mapTop {change : Value → Value}
    (kept : ∀ value, value.Within limit → (change value).Within limit) :
    Upholds limit (mapTop change) fun _ => True :=
  upholds_pop.bind fun value within => upholds_push (kept value within)

theorem upholds_proceed {action : StackAction α} (upholds : Upholds limit action post) :
    Upholds limit (action >>= fun _ => pure Flow.proceed) fun _ => True :=
  upholds.bind fun _ _ => upholds_pure trivial

section

variable (large : maxTextLength ≤ limit)

include large

theorem upholds_arithmetic (operation : Binary64 → Binary64 → Binary64) :
    Upholds limit (arithmetic operation) fun _ => True := by
  apply upholds_popPair.bind
  rintro ⟨left, right⟩ within
  split
  · exact upholds_push (Value.within_ofNumber large _)
  · exact upholds_push (Value.within_notANumber large)

theorem upholds_add : Upholds limit StackAction.add fun _ => True := by
  apply upholds_popPair.bind
  rintro ⟨left, right⟩ within
  split
  · exact upholds_push (Value.within_ofNumber large _)
  · apply (upholds_checkLength _ _ _ _).bind
    intro _ passes
    exact upholds_push (Value.within_text large passes)

theorem upholds_multiplyText {left right : Value} {text : String} {number : Binary64}
    (countable : text.length < UInt64.size) :
    Upholds limit (multiplyText left right text number) fun _ => True := by
  apply (upholds_checkLength _ _ _ _).bind
  intro _ passes
  apply upholds_push
  apply Value.within_text large
  rw [length_repeatText]
  exact toUnsigned_mul_le countable passes

theorem upholds_multiply (countable : limit < UInt64.size) :
    Upholds limit StackAction.multiply fun _ => True := by
  apply upholds_popPair.bind
  rintro pair ⟨leftWithin, rightWithin⟩
  split
  case h_1 left right => exact upholds_push (Value.within_ofNumber large _)
  case h_2 left right => exact upholds_push (Value.within_notANumber large)
  case h_3 number text =>
    exact upholds_multiplyText large (Nat.lt_of_le_of_lt rightWithin countable)
  case h_4 text number =>
    exact upholds_multiplyText large (Nat.lt_of_le_of_lt leftWithin countable)

end

theorem upholds_characterCodes : Upholds limit StackAction.characterCodes fun _ => True := by
  apply upholds_pop.bind
  intro value within
  split
  case h_1 text =>
    apply upholds_pushAll
    intro code mem
    rcases List.mem_map.mp mem with ⟨c, _, rfl⟩
    apply Value.within_ofNat
    exact Nat.lt_trans c.val.toNat_lt (by decide)
  case h_2 number => exact upholds_push within

theorem upholds_skipIf : Upholds limit StackAction.skipIf fun _ => True := by
  apply upholds_pop.bind
  intro amount _
  apply upholds_pop.bind
  intro condition _
  split
  · exact upholds_tryProgram _
  · exact upholds_pure trivial

end StackAction

variable {limit : Nat}

/-- No operator puts anything else on the stack. -/
theorem upholds_apply (large : maxTextLength ≤ limit) (countable : limit < UInt64.size)
    (operator : Operator) : Upholds limit operator.apply fun _ => True := by
  cases operator with
  | add => exact upholds_proceed (upholds_add large)
  | subtract =>
      apply upholds_popPair.bind
      rintro ⟨left, right⟩ ⟨leftWithin, rightWithin⟩
      exact upholds_proceed (upholds_push (Value.within_difference large leftWithin rightWithin))
  | multiply => exact upholds_proceed (upholds_multiply large countable)
  | divide | remainder => exact upholds_proceed (upholds_arithmetic large _)
  | toNumber => exact upholds_proceed (upholds_mapTop fun _ => Value.within_toNumber large)
  | toCharacter => exact upholds_proceed (upholds_mapTop fun _ => Value.within_toCharacter large)
  | toText => exact upholds_proceed (upholds_mapTop fun _ => Value.within_toText large)
  | floor => exact upholds_proceed (upholds_mapTop fun _ => Value.within_floor large)
  | not | isText => exact upholds_proceed (upholds_mapTop fun _ _ => Value.within_ofBool _)
  | length =>
      apply upholds_proceed
      apply upholds_mapTop
      intro value within
      exact Value.within_ofNat (Value.length_lt countable within)
  | print | deleteOutput =>
      exact upholds_pop.bind fun _ _ => upholds_proceed (upholds_modifyConsole _)
  | drop => exact upholds_proceed upholds_pop
  | copy =>
      apply upholds_pop.bind
      intro count _
      apply upholds_pop.bind
      intro value within
      exact upholds_proceed (upholds_pushTimes within _)
  | characterCodes => exact upholds_proceed upholds_characterCodes
  | skipIf => exact upholds_proceed upholds_skipIf
  | readCharacter | readText | readNumber => exact upholds_pure trivial
  | compare =>
      apply upholds_popPair.bind
      rintro ⟨left, right⟩ _
      exact upholds_proceed (upholds_push (Value.within_ofOrdering _))
  | reverse =>
      apply upholds_pop.bind
      intro count _
      apply (upholds_popTimes (by simp) _).bind
      intro taken within
      apply upholds_proceed
      apply upholds_pushAll
      intro value mem
      exact within value (List.mem_reverse.mp mem)
  | clearOutput => exact upholds_proceed (upholds_modifyConsole _)
  | or =>
      apply upholds_pop.bind
      intro value _
      split
      · exact upholds_proceed (upholds_push (Value.within_ofBool _))
      · exact upholds_pop.bind fun _ _ => upholds_proceed (upholds_push (Value.within_ofBool _))
  | and =>
      apply upholds_pop.bind
      intro value _
      split
      · exact upholds_pop.bind fun _ _ => upholds_proceed (upholds_push (Value.within_ofBool _))
      · exact upholds_proceed (upholds_push (Value.within_ofBool _))
  | random =>
      have drawn : Upholds limit (draw RandomStream.nextFraction) (·.isFinite = true) :=
        upholds_draw RandomStream.isFinite_nextFraction
      exact drawn.bind fun _ isFinite => upholds_proceed (upholds_push isFinite)
  | stackLength =>
      apply upholds_getState.bind
      intro stack sound
      exact upholds_proceed (upholds_push (Value.within_ofNat sound.size_lt))

/-! ### Tokens and answers -/

namespace Token

/-- The token pushes nothing that is out of range. -/
def Within (limit : Nat) : Token → Prop
  | value pushed => pushed.Within limit
  | text _ | operator _ | jump _ => True

/-- The token is not a number that is not finite. -/
def IsFinite : Token → Prop
  | value (.number number) => number.isFinite = true
  | value (.text _) | text _ | operator _ | jump _ => True

/-- The string that the token is. -/
def literal? : Token → Option String
  | value (.text string) => some string
  | value (.number _) | text _ | operator _ | jump _ => none

end Token

theorem upholds_execute (large : maxTextLength ≤ limit) (countable : limit < UInt64.size)
    {registry : Registry} (ofOperators : registry.OfOperators) {token : Token}
    (within : token.Within limit) : Upholds limit (execute registry token) fun _ => True := by
  cases token with
  | text text => exact upholds_proceed (upholds_modifyConsole _)
  | value value => exact upholds_proceed (upholds_push within)
  | operator symbol =>
      simp only [execute]
      split
      · rename_i entry found
        rcases ofOperators symbol entry found with ⟨operator, same⟩
        rw [same]
        exact upholds_apply large countable operator
      · exact upholds_throw _
  | jump name =>
      apply Upholds.get_bind
      intro machine
      split
      · exact (upholds_tryProgram _).bind fun _ _ => upholds_pure trivial
      · exact upholds_throw _

theorem sound_perform (large : maxTextLength ≤ limit) (countable : limit < UInt64.size)
    {registry : Registry} (ofOperators : registry.OfOperators) {token : Token}
    {machine : Machine Token Stack} (within : token.Within limit)
    (sound : machine.state.Sound limit) :
    ((language registry).perform token machine).2.state.Sound limit := by
  have executes : ((language registry).execute token).Relates fun before after =>
      before.state.Sound limit → after.state.Sound limit :=
    (upholds_execute large countable ofOperators within).relates
  exact Language.perform_relates executes machine sound

theorem within_valueOfEntry (large : maxTextLength ≤ limit) {answer : Answer}
    (faithful : answer.Faithful) (short : answer.line.length ≤ limit) :
    (valueOfEntry answer.entry).Within limit := by
  cases faithful with
  | char c entry_eq =>
      rw [entry_eq]
      exact Value.within_char large c
  | line form entry_eq =>
      rw [entry_eq]
      cases form with
      | text => exact short
      | decimal | digits => exact Value.within_ofNumber large _

theorem sound_receive (large : maxTextLength ≤ limit) {answer : Answer} {stack after : Stack}
    (faithful : answer.Faithful) (short : answer.line.length ≤ limit)
    (sound : stack.Sound limit) (receives : receive answer.entry stack = .ok after) :
    after.Sound limit := by
  unfold receive at receives
  split at receives
  · cases receives
  · rename_i notFull
    cases receives
    exact sound.push (Bool.eq_false_iff.mpr notFull) (within_valueOfEntry large faithful short)

/-! ### Literals -/

namespace Scan

variable {registry : Registry} {scan : Scan}

/-- The numbers that were read are finite. -/
def IsFinite (scan : Scan) : Prop :=
  ∀ token ∈ scan.tokens, token.IsFinite

theorem IsFinite.push {token : Token} (isFinite : scan.IsFinite) (new : token.IsFinite) :
    (scan.push token).IsFinite := by
  intro other mem
  rcases Array.mem_push.mp mem with mem | rfl
  · exact isFinite other mem
  · exact new

theorem keptBySteps_isFinite : KeptBySteps registry IsFinite where
  withMode _ _ isFinite := isFinite
  text _ _ isFinite := isFinite.push trivial
  string _ _ isFinite := isFinite.push trivial
  operator _ _ _ isFinite := isFinite.push trivial
  jump scan _ _ name isFinite := by
    have pushed : (scan.push (.jump name)).IsFinite := isFinite.push trivial
    exact pushed
  number _ read isFinite := by
    -- A numeral that is too large becomes a text.
    apply isFinite.push
    cases Binary64.readStart read.toList with
    | nan | infinite => trivial
    | finite => rfl
  marker _ _ _ _ isFinite reads := by
    unfold endMarker at reads
    split at reads
    · cases reads
    · cases reads
      exact isFinite

end Scan

theorem isFinite_of_read {registry : Registry} {source : String} {program : Program Token}
    (reads : read registry source = .ok program) : ∀ token ∈ program.tokens, token.IsFinite := by
  have fresh : Scan.IsFinite {} := by simp [Scan.IsFinite]
  rcases Scan.keptBySteps_isFinite.exists_of_read fresh reads with ⟨final, isFinite, resolves⟩
  rcases Scan.toProgram_eq_ok resolves with ⟨rfl, _⟩
  exact isFinite

/-! ### Runs -/

/-- The length of the longest text; zero if there is none. -/
def longest (texts : List String) : Nat :=
  texts.foldr (fun text most => max text.length most) 0

theorem length_le_longest {texts : List String} {text : String} (mem : text ∈ texts) :
    text.length ≤ longest texts := by
  induction texts with
  | nil => cases mem
  | cons first rest ih =>
      simp only [longest, List.foldr_cons]
      rcases List.mem_cons.mp mem with rfl | mem
      · exact Nat.le_max_left _ _
      · exact Nat.le_trans (ih mem) (Nat.le_max_right _ _)

/--
What a text may have at most: as many characters as operators may build, as the longest string of
the program has, or as the longest line that was committed.
-/
def textLimit (program : Program Token) (acts : List (Act Token)) : Nat :=
  max maxTextLength
    (max (longest (program.tokens.toList.filterMap Token.literal?))
      (longest (acts.filterMap Act.line?)))

theorem within_of_read {registry : Registry} {source : String} {program : Program Token}
    (reads : read registry source = .ok program) (acts : List (Act Token)) :
    ∀ token ∈ program.tokens, token.Within (textLimit program acts) := by
  intro token mem
  have isFinite := isFinite_of_read reads token mem
  cases token with
  | text | operator | jump => trivial
  | value value =>
      cases value with
      | number number => exact isFinite
      | text string =>
          have isLiteral : string ∈ program.tokens.toList.filterMap Token.literal? :=
            List.mem_filterMap.mpr ⟨_, Array.mem_def.mp mem, rfl⟩
          have literal := length_le_longest isLiteral
          exact Nat.le_trans literal
            (Nat.le_trans (Nat.le_max_left _ _) (Nat.le_max_right _ _))

theorem allAllowed_textLimit (program : Program Token) (acts : List (Act Token)) :
    Engine.AllAllowed (fun answer => answer.line.length ≤ textLimit program acts) acts := by
  intro answer result mem
  have isLine : answer.line ∈ acts.filterMap Act.line? := List.mem_filterMap.mpr ⟨_, mem, rfl⟩
  exact Nat.le_trans (length_le_longest isLine)
    (Nat.le_trans (Nat.le_max_right _ _) (Nat.le_max_right _ _))

/-- The run is one of the program, and its stack is sound. -/
structure SoundRun (program : Program Token) (limit : Nat) (run : Run Token Stack) : Prop where
  tokens_eq : run.program.tokens = program.tokens
  sound : run.state.Sound limit

/-- Tokens and answers that push nothing out of range keep a run sound. -/
theorem preserves_soundRun {registry : Registry} (ofOperators : registry.OfOperators)
    {program : Program Token} (large : maxTextLength ≤ limit) (countable : limit < UInt64.size)
    (within : ∀ token ∈ program.tokens, token.Within limit) :
    (language registry).Preserves (fun answer => answer.line.length ≤ limit)
      (SoundRun program limit) where
  perform machine token held current := by
    have steers : ((language registry).execute token).Steers :=
      steers_execute (ofOperators.all steers_apply) token
    have leads := Language.perform_program steers machine.behind
    have isToken : token ∈ program.tokens := by
      rw [← held.tokens_eq]
      exact Array.mem_of_getElem? current
    constructor
    · exact leads.tokens_eq.trans held.tokens_eq
    · exact sound_perform large countable ofOperators (within token isToken) held.sound
  receive run answer state held faithful short receives :=
    ⟨held.tokens_eq, sound_receive large faithful short held.sound receives⟩

open Engine in
theorem soundRun_runFrom {registry : Registry} {before : Engine Token Stack}
    (language_eq : before.language = language registry)
    (countable : before.options.maxStackSize < UInt64.size) (program : Program Token) :
    SoundRun program limit (before.runFrom program) := by
  constructor
  · rfl
  · simp only [runFrom, language_eq]
    exact ⟨by simp [language], Nat.zero_le _, countable⟩

open Engine in
/--
Since its program was started, whatever a run has come to: every number on its stack is finite, and
no text on it has more characters than operators may build, than the longest string of the program
has, and than the longest line that was committed. So it is also in the machine that the next token
leaves, even if this token fails. Counts are taken to fit into a machine word: that of the values on
the stack, and that of the characters of a text.
-/
theorem values_in_range (registry : Registry) (ofOperators : registry.OfOperators)
    {before engine : Engine Token Stack} {source : String} {program : Program Token}
    {acts : List (Act Token)} {run : Run Token Stack}
    (language_eq : before.language = language registry)
    (reads : read registry source = .ok program)
    (chronicle : (before.start source).1.Chronicle acts engine) (noStart : Act.NoStart acts)
    (active : engine.phase.run? = some run)
    (countableStack : before.options.maxStackSize < UInt64.size)
    (countableTexts : textLimit program acts < UInt64.size) :
    (∀ value ∈ run.state.values, value.Within (textLimit program acts)) ∧
      ∀ token, engine.phase = .running run → run.program.current? = some token →
        ∀ value ∈ (engine.attempt run token).2.state.values,
          value.Within (textLimit program acts) := by
  have large : maxTextLength ≤ textLimit program acts := Nat.le_max_left _ _
  have preserves :=
    preserves_soundRun ofOperators large countableTexts (within_of_read reads acts)
  have began : Sustains (language registry) (SoundRun program (textLimit program acts))
      (before.start source).1 :=
    sustains_start language_eq reads (soundRun_runFrom language_eq countableStack program)
  have sustains :=
    began.chronicle preserves chronicle noStart (allAllowed_textLimit program acts)
  refine ⟨(sustains.holds run active).sound.within, ?_⟩
  intro token running current
  exact (sustains.attempt preserves running current).sound.within

open Engine in
/-- A number, copies of a text, and a line that was typed and is about to be joined. -/
theorem values_in_range_of_copies :
    let fresh := create (language .standard) {} .zeros {} Clock.stopped
    let began := (fresh.start "$7\"ab\"3*_+;").1
    let asked := began.tick.1.tick.1.tick.1.tick.1.tick.1
    let typed := (asked.respond (.char 'h')).1
    let engine := (typed.respond .enter).1
    ∃ run acts, began.Chronicle acts engine ∧ acts.filterMap Act.line? = ["h"] ∧
      engine.phase.run? = some run ∧
      run.state.values = #[.number 7, .text "ababab", .text "h"] ∧
      (∀ value ∈ run.state.values, value.Within maxTextLength) ∧
      ∀ value ∈ (engine.attempt run (.operator '+')).2.state.values,
        value.Within maxTextLength := by
  intro fresh began asked typed engine
  have values : engine.phase.run?.map (·.state.values) =
      some #[.number 7, .text "ababab", .text "h"] := by decide +kernel
  have literals : (read .standard "$7\"ab\"3*_+;").toOption.map
      (·.tokens.toList.filterMap Token.literal?) = some ["ab"] := by decide +kernel
  have next : engine.phase.run?.bind (·.program.current?) = some (.operator '+') := by
    decide +kernel
  have running : engine.status = .running := by decide +kernel
  have line : (typed.committed? .enter).map (·.line) = some "h" := by decide +kernel
  have one : began.Uncommitted began.tick.1 :=
    (Uncommitted.refl began).tick (by decide +kernel) (by decide +kernel) (by decide +kernel)
  have two : began.Uncommitted began.tick.1.tick.1 :=
    one.tick (by decide +kernel) (by decide +kernel) (by decide +kernel)
  have three : began.Uncommitted began.tick.1.tick.1.tick.1 :=
    two.tick (by decide +kernel) (by decide +kernel) (by decide +kernel)
  have four : began.Uncommitted began.tick.1.tick.1.tick.1.tick.1 :=
    three.tick (by decide +kernel) (by decide +kernel) (by decide +kernel)
  have asks : began.Uncommitted asked :=
    four.tick (by decide +kernel) (by decide +kernel) (by decide +kernel)
  have edits : asked.committed? (.char 'h') = none := by
    rw [← Option.isNone_iff_eq_none]
    decide +kernel
  have types : began.Uncommitted typed := asks.edit (by decide +kernel) edits
  rcases Option.map_eq_some_iff.mp line with ⟨answer, commits, isLine⟩
  obtain ⟨acts, chronicle, noStart, lines⟩ : ∃ acts, began.Chronicle acts engine ∧
      Act.NoStart acts ∧ acts.filterMap Act.line? = [answer.line] := types.commit commits
  rcases Phase.status_eq_running_iff.mp running with ⟨run, phase⟩
  have active : engine.phase.run? = some run := by rw [phase]; rfl
  rw [active] at values next
  cases reads : read .standard "$7\"ab\"3*_+;" with
  | error error =>
      rw [reads] at literals
      cases literals
  | ok program =>
      rw [reads] at literals
      have limit : textLimit program acts = maxTextLength := by
        have isLiteral : program.tokens.toList.filterMap Token.literal? = ["ab"] :=
          Option.some.inj literals
        rw [textLimit, isLiteral, lines, isLine]
        decide
      clear_value engine
      have inRange := values_in_range .standard Registry.ofOperators_standard rfl reads chronicle
        noStart active (by decide) (by rw [limit]; decide)
      rw [limit] at inRange
      exact ⟨run, acts, chronicle, by rw [lines, isLine], active, Option.some.inj values,
        inRange.1, inRange.2 _ phase next⟩

end ShortO

end Esoterica
